import PlatformGame.CommandLine.Arguments

/-! # Help texts -/

namespace PlatformGame.CommandLine

def modeChoices : String := r"{" ++ ",".intercalate (OutputMode.all.map OutputMode.text) ++ r"}"

def usageLines : List String :=
  ["usage: " ++ UsageError.command ++ " [-h] [--output OUTPUT]",
    "                            [--mode " ++ modeChoices ++ "]",
    "                            [--runtime-url RUNTIME_URL] [--minify] [--strict]",
    "                            sources [sources ...]"]

def helpLines : List String :=
  usageLines ++
  ["",
    "Compile platformer DSL games (.pf files, or directories holding",
    "<game>/game.pf) into standalone Phaser HTML pages.",
    "",
    "positional arguments:",
    "  sources               Game source files or directories to scan for",
    "                        */game.pf.",
    "",
    "options:",
    "  -h, --help            show this help message and exit",
    "  --output OUTPUT       Write each game to <output>/<name>/ instead of next to",
    "                        its source.",
    "  --mode " ++ modeChoices,
    "                        Output mode of the generated artifact.",
    "  --runtime-url RUNTIME_URL",
    "                        URL of the Phaser runtime script embedded in the page.",
    "  --minify              Drop blank lines and indentation from the generated",
    "                        artifact.",
    "  --strict              Check asset references even when a game declares no",
    "                        assets."]

end PlatformGame.CommandLine
