import CqlConsole.Insert.Walk

/-!
# Statements

The first keyword says which statement an input holds. Only INSERT has a
grammar here; the other statements on rows are known by name, so that they are
reported as unsupported and not as errors of syntax.
-/

set_option autoImplicit false

namespace CqlConsole

def statementKeywords : List String :=
  ["insert", "select", "update", "delete"]

structure Inspection where
  reading : Except SyntaxError Insert.Reading
  steps : List Insert.Step

def inspectSteps (input : String) : Inspection :=
  let (first, cursor) := (Cursor.ofInput input).nextSolid
  match first.kind with
  | .endOfInput => ⟨.error .empty, []⟩
  | .error => ⟨.error (.invalidToken first.text), []⟩
  | .keyword =>
    if first.text = "insert" then
      let walk := Insert.Walk.ofCursor cursor
      ⟨walk.reading, walk.steps⟩
    else if first.text ∈ statementKeywords then
      ⟨.error (.unsupported (String.ofList (Text.upper first.text.toList))), []⟩
    else ⟨.error (.unexpected "statement keyword" first.text), []⟩
  | _ => ⟨.error (.unexpected "statement keyword" first.text), []⟩

def inspect (input : String) : Except SyntaxError Insert.Reading :=
  (inspectSteps input).reading

def parse (input : String) : Except SyntaxError Insert.Statement :=
  inspect input >>= Insert.Reading.complete

end CqlConsole
