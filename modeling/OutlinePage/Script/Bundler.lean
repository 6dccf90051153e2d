import OutlinePage.Script.Service
import OutlinePage.Text.Blank

/-!
# The bundler

The tool behind the script service: a program called with arguments, which reads a script and writes
the compiled one. If the program is missing, scripts are taken as they are.
-/

namespace OutlinePage.Script

/-- What a run of a program leaves behind. -/
structure Exit where
  code : Int
  output : Text
  errors : Text
deriving DecidableEq, Repr

/-- A program that can be run with arguments and an input. -/
structure Program where
  /-- Where the program was found. -/
  path : Text
  run : List Text → Text → Exit

/-- Which program the service uses, and which edition of the language it asks for. -/
structure Bundler where
  executable : Text := "esbuild"
  target : Text := "es2022"
deriving DecidableEq, Repr

/-- The program's arguments for a script. -/
def Bundler.arguments (b : Bundler) (file : Option Text) (minify : Bool) : List Text :=
  let shrinking : List Text :=
    if minify then ["--minify", "--drop:console", "--drop:debugger", "--keep-names"] else []
  let origin : List Text := match file with
    | none => []
    | some f => if f.isEmpty then [] else ["--sourcemap=inline", "--sourcefile=" ++ f]
  let always : List Text := ["--loader=tsx", "--target=" ++ b.target]
  always ++ shrinking ++ origin

/-- Compiles a script with the program. What it writes to its error output is the reason of a
failure. -/
def Bundler.compile (b : Bundler) (p : Program) : Tool := fun job =>
  let exit := p.run (b.arguments job.file job.minify) job.source
  if exit.code = 0 then .ok exit.output
  else
    let reason := Text.strip exit.errors
    .error (.refused (if reason.isEmpty then "esbuild exited with " ++ Text.ofInt exit.code
      else reason))

/-- Loads the program that was looked for, if it was found and says its version. -/
def Bundler.load (b : Bundler) : Option Program → Loading
  | none =>
    { result := .ok copying
      log := [⟨.warning,
        b.executable ++ " not found, scripts will be copied without compiling."⟩] }
  | some p =>
    let version := p.run ["--version"] []
    if version.code = 0 then
      { result := .ok (b.compile p)
        log := [⟨.debug, "Using " ++ p.path ++ " " ++ Text.strip version.output⟩] }
    else { result := .error (.refused ("Could not start " ++ p.path)) }

/-- The service that uses the program, which every attempt finds in the same place. -/
def Bundler.service (b : Bundler) (found : Option Program) : Service :=
  { load := fun _ => b.load found }

end OutlinePage.Script
