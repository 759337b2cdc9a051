import PlatformGame.Program.Enemies

/-! # Tilemaps in a level scene -/

namespace PlatformGame.Program

/-- Whether a text has `part` in it. -/
def containsText (part : List Char) : List Char → Bool
  | [] => part.isEmpty
  | c :: cs => part.isPrefixOf (c :: cs) || containsText part cs

/-- The image that tiles are taken from: the first one whose key mentions tiles, else the first. -/
def tilesetKey (assets : List Asset) : String :=
  let images := (assets.filter (·.kind == .image)).map (·.key)
  ((images.find? fun key => containsText "tile".toList key.toList).or images.head?).getD "tiles"

def layerCreate (name tiled : String) : Listing :=
  let field : Piece := .name (layerField name)
  [line [field, " = map.createLayer(", .literal tiled, ", tileset, 0, 0);"]]
  ++ block ["if (", field, ")"]
    [line [field, ".setCollisionByExclusion([-1]);"],
      line ["this.physics.add.collider(this.player, ", field, ");"]]

def tilemapCreate (l : Level) (assets : List Asset) : Listing :=
  match tiledLayers l with
  | [] => []
  | layers =>
    [line [r"const map = this.make.tilemap({ key: ", .literal (l.tilemap.getD ""), r" });"],
      line ["const tileset = map.addTilesetImage('tileset', ", .literal (tilesetKey assets), ");"]]
    ++ layers.flatMap fun (name, tiled) => layerCreate name tiled

end PlatformGame.Program
