import CqlConsole.Settings.Basic
import CqlConsole.Toml.Codec

/-!
# Documents of settings

Settings are written as a document with a section for each group. When a
document is read, a missing section or key has its default, and keys without a
meaning are passed over. Both go through a codec, which may fail.
-/

set_option autoImplicit false

namespace CqlConsole.Settings

open CqlConsole.Toml

def size? (n : Node) : Option Nat :=
  match n.integer? with
  | some (.ofNat size) => if size < Nat.pow 2 64 then some size else none
  | _ => none

def Display.ofNode? (n : Node) : Option Display :=
  if n.isRecordOf ["format", "color_output", "syntax_highlighting"] then do
    let d : Display := {}
    let format ← n.fieldOr? d.format 0 "format" fun v => v.choice? >>= OutputFormat.ofName?
    let colours ← n.fieldOr? d.colours 1 "color_output" Node.boolean?
    let highlighting ← n.fieldOr? d.highlighting 2 "syntax_highlighting" Node.boolean?
    pure ⟨format, colours, highlighting⟩
  else none

def History.ofNode? (home : String) (n : Node) : Option History :=
  if n.isRecordOf ["max_size", "file_path", "persist"] then do
    let d := (defaults home).history
    let maxSize ← n.fieldOr? d.maxSize 0 "max_size" size?
    let filePath ← n.fieldOr? d.filePath 1 "file_path" Node.string?
    let persist ← n.fieldOr? d.persist 2 "persist" Node.boolean?
    pure ⟨maxSize, filePath, persist⟩
  else none

def Logging.ofNode? (n : Node) : Option Logging :=
  if n.isRecordOf ["level", "timestamps"] then do
    let d : Logging := {}
    let level ← n.fieldOr? d.level 0 "level" fun v => v.choice? >>= Level.ofName?
    let timestamps ← n.fieldOr? d.timestamps 1 "timestamps" Node.boolean?
    pure ⟨level, timestamps⟩
  else none

def schemaPath? (n : Node) : Option (Option String) :=
  if n.isRecordOf ["path"] then n.optional? 0 "path" Node.string? else none

def ofNode? (home : String) (n : Node) : Option Settings :=
  if n.isRecordOf ["display", "history", "logging", "schema"] then do
    let d := defaults home
    let display ← n.fieldOr? d.display 0 "display" Display.ofNode?
    let history ← n.fieldOr? d.history 1 "history" (History.ofNode? home)
    let logging ← n.fieldOr? d.logging 2 "logging" Logging.ofNode?
    let schemaPath ← n.fieldOr? d.schemaPath 3 "schema" schemaPath?
    pure ⟨display, history, logging, schemaPath⟩
  else none

def sections (s : Settings) : List Section := [
  ⟨"display", [
    ("format", .string s.display.format.name),
    ("color_output", .boolean s.display.colours),
    ("syntax_highlighting", .boolean s.display.highlighting)]⟩,
  ⟨"history", [
    ("max_size", .natural s.history.maxSize),
    ("file_path", .string s.history.filePath),
    ("persist", .boolean s.history.persist)]⟩,
  ⟨"logging", [
    ("level", .string s.logging.level.name),
    ("timestamps", .boolean s.logging.timestamps)]⟩,
  ⟨"schema", (s.schemaPath.map fun path => ("path", Scalar.string path)).toList⟩]

def decode (c : Codec) (home text : String) : Except SettingsError Settings :=
  match c.read text with
  | .error reason => .error (.invalidFormat reason)
  | .ok n =>
    match ofNode? home n with
    | none => .error (.invalidFormat "TOML parse error")
    | some s => .ok s

def encode (c : Codec) (s : Settings) : Except SettingsError String :=
  (c.write s.sections).mapError .other

end CqlConsole.Settings
