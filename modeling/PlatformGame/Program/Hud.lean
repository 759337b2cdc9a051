import PlatformGame.Program.Boot

/-! # The head-up display

A scene that is shown above the level scenes and listens to what they report. -/

namespace PlatformGame.Program

/-- Where an element stands on a screen of the given size. -/
def anchorPlace (a : Anchor) (width height : Number) : Quantity × Quantity :=
  (match a.side with
    | .left => .value (.int 16)
    | .right => .shifted width (-100)
    | .center => .centred width 50,
    if a.top then .value (.int 16) else .shifted height (-40))

def hudField : HudKind → String
  | .score => "scoreText"
  | .lives => "livesText"
  | .timer => "timerText"

def hudLabel : HudKind → String
  | .score => "Score"
  | .lives => "Lives"
  | .timer => "Time"

def hudElementCreate (g : Game) (e : HudElement) : Row :=
  let (x, y) := anchorPlace e.position g.config.width g.config.height
  let shown : Number := if e.kind = .lives then g.player.lives else .int 0
  let color := match e.color with
    | some c => if c.isEmpty then "#FFFFFF" else c
    | none => "#FFFFFF"
  line ["this.", hudField e.kind, " = this.add.text(", .number x, ", ", .number y, ", ",
    .labelled (hudLabel e.kind ++ ": ") shown "", r", { fontSize: ",
    .labelled "" (e.fontSize.getD (.int 20)) "px", ", color: ", .literal color, r" });"]

/-- Shows what a level reports under the given event. -/
def hudListener (event parameter : String) (update : String) : Listing :=
  blockTo r"});" ["this.game.events.on('", event, "', (", parameter, ") =>"] [line [update]]

def hudListing (g : Game) (elements : List HudElement) : Listing :=
  sceneClass hudScene
    (sceneConstructor hudScene ", active: false"
      ++ [blank]
      ++ block ["create()"]
        ([line ["this.scoreText = null;"],
            line ["this.livesText = null;"],
            line ["this.timerText = null;"],
            blank]
          ++ elements.map (hudElementCreate g)
          ++ [blank]
          ++ hudListener "updateScore" "score"
            "if (this.scoreText) this.scoreText.setText('Score: ' + score);"
          ++ hudListener "updateLives" "lives"
            "if (this.livesText) this.livesText.setText('Lives: ' + lives);"
          ++ hudListener "updateTimer" "time"
            "if (this.timerText) this.timerText.setText('Time: ' + Math.ceil(time));"))

end PlatformGame.Program
