import ModBench.Cli.Program
import ModBench.Editor.Frame
import ModBench.Editor.Server
import ModBench.Shell.Programs

/-!
The program at the command line.  What a run may look at is taken into a disk, the run is worked out
on that disk, and what it changed is written back.  No program is started from here: commands find
the programs of the library.
-/

set_option autoImplicit false
set_option relaxedAutoImplicit false

namespace ModBench.Main

open Files (Disk Place Tree)
open Host (Machine)

def pathText (place : Place) : String :=
  (Disk.pathOf place).toString

/-- How deep directories are taken in. -/
def maxDepth : Nat := 64

def withAncestors (t : Tree) (place : Place) : Tree :=
  (List.range place.length).foldl
    (fun t n =>
      if (t.find? (place.take n)).isNone then t.put (place.take n) .directory else t) t

def takeIn : Nat → Tree → Place → IO Tree
  | 0, t, _ => pure t
  | depth + 1, t, place => do
    let path := (← IO.currentDir) / pathText place
    if ← path.isDir then
      let names := (← path.readDir).toList.map fun entry => Text.encodeString entry.fileName
      names.foldlM (fun t name => takeIn depth t (place ++ [name]))
        ((withAncestors t place).put place .directory)
    else if ← path.pathExists then
      let bytes ← IO.FS.readBinFile path
      pure ((withAncestors t place).put place (.file (.bytes bytes.toList)))
    else pure t

def follow (here : Place) (steps : List Files.Name) : Place :=
  steps.foldl
    (fun place step =>
      if step = Files.dotName then place
      else if step = Files.dotsName then place.dropLast
      else place ++ [step])
    here

/-- The disk with all that stands at some paths and below them. -/
def takeInAll (d : Disk) : List Path → IO Disk
  | [] => pure d
  | p :: rest => do
    let start : Place := if p.isAbsolute then [] else d.cwd
    let tree ← takeIn maxDepth d.tree (follow start (Files.stepsOf p))
    takeInAll { d with tree := tree } rest

/-- Make the system's files as they are in the tree `after`, where they were as in `before`. -/
def writeBack (before after : Tree) : IO Unit := do
  let higherFirst := after.mergeSort fun a b => a.1.length ≤ b.1.length
  for (place, node) in higherFirst do
    if before.find? place ≠ some node then
      match node with
      | .directory => IO.FS.createDirAll (pathText place)
      | .file content => IO.FS.writeBinFile (pathText place) ⟨content.data.toArray⟩
      | .link _ => pure ()
  let deeperFirst := before.mergeSort fun a b => b.1.length ≤ a.1.length
  for (place, node) in deeperFirst do
    if (after.find? place).isNone then
      if node = .directory then IO.FS.removeDir (pathText place)
      else IO.FS.removeFile (pathText place)

def environment : IO Environment := do
  let bytes ← IO.FS.readBinFile "/proc/self/environ"
  let entries := Text.split (Char.ofNat 0) (Text.decodeLossy bytes.toList).toList
  let pairs := entries.map fun entry =>
    let name := entry.takeWhile fun c => c != '='
    (String.ofList name, String.ofList (entry.drop (name.length + 1)))
  pure fun name => (pairs.find? fun pair => pair.1 == name).map Prod.snd

/-- What a run with some arguments may look at before the configuration is known. -/
def paths (home : Path) (args : List String) : List Path :=
  let named := args.map Path.ofString
  let folders := named.filterMap fun p => (ModLayout.ofScript p).toOption.map ModLayout.modDir
  [Path.ofString ".", home.child ".reds"] ++ named ++ folders

def machine (args : List String) : IO Machine := do
  let env ← environment
  let here := Path.ofString (← IO.currentDir).toString
  let folders := Host.toolDirectories.foldl
    (fun t place => (withAncestors t place).put place .directory) []
  let m : Machine :=
    { disk := { tree := folders, cwd := Files.stepsOf here }, environment := env,
      toolbox := Shell.systemTools }
  let m := { m with disk := ← takeInAll m.disk (paths m.home args) }
  let user := (Cli.parseArguments args).toOption.bind Cli.Invocation.config
  match Cli.loadConfig m user none with
  | .error _ => pure m
  | .ok config =>
    match config.deploymentFolder m.environment with
    | .ok folder => pure { m with disk := ← takeInAll m.disk [folder] }
    | .error _ => pure m

partial def readHeader (input : IO.FS.Stream) (length : Nat) : IO (Option Nat) := do
  let line ← input.getLine
  if line.isEmpty then pure none
  else if Editor.Frame.isHeaderEnd line.toList then pure (some length)
  else readHeader input ((Editor.Frame.lengthIn? line.toList).getD length)

partial def readBytes (input : IO.FS.Stream) (wanted : Nat) (sofar : ByteArray) : IO ByteArray := do
  if wanted ≤ sofar.size then pure sofar
  else
    let more ← input.read (wanted - sofar.size).toUSize
    if more.isEmpty then pure sofar else readBytes input wanted (sofar ++ more)

/-- Converse with an editor until one of the two ends it. -/
partial def converse (user : Option Path) (s : Editor.Server) : IO Editor.Server := do
  let input ← IO.getStdin
  let output ← IO.getStdout
  match ← readHeader input 0 with
  | none => pure s
  | some length =>
    let body ← readBytes input length .empty
    let (answer, s) := s.takeText user (Text.decodeLossy body.toList)
    let (messages, s) := (Editor.Server.settle s).takeOutbox
    for j in answer.toList ++ messages.map Editor.Message.toJson do
      output.putStr (Editor.Frame.text j.compact)
    output.flush
    if s.stage = .over then pure s else converse user s

def runProgram (args : List String) : IO UInt32 := do
  let m ← machine args
  match Cli.parseArguments args with
  | .ok ⟨.serve, user, _⟩ =>
    let begun := Cli.withLog m
    writeBack m.disk.tree begun.disk.tree
    let s ← converse user (Editor.Server.new begun)
    writeBack begun.disk.tree s.machine.disk.tree
    pure 0
  | _ =>
    let (output, after) := Cli.run m args
    writeBack m.disk.tree after.disk.tree
    (← IO.getStdout).putStr output.stdout
    (← IO.getStderr).putStr output.stderr
    pure (UInt32.ofNat output.status)

end ModBench.Main

/-- Run the program on its arguments. -/
def main (args : List String) : IO UInt32 :=
  ModBench.Main.runProgram args
