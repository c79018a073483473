import CqlConsole.Text.Bytes

/-!
# Tries

A trie stores a finite set of non-empty texts as a tree whose edges carry
texts. A node is terminal when the edges down to it spell a stored text.
Siblings start with different characters, so a text has at most one way down.
Completing a term gives what follows it in every stored text.
-/

set_option autoImplicit false

namespace CqlConsole

open CqlConsole.Text

def commonPrefix : List Char → List Char → List Char
  | a :: s, b :: t => if a = b then a :: commonPrefix s t else []
  | _, _ => []

/-- The byte at which two texts, read side by side from byte `start` on, first have different
characters; nothing if one of them ends before. -/
def firstDifference (start : Nat) : List Char → List Char → Option Nat
  | a :: s, b :: t => if a = b then firstDifference (start + a.utf8Size) s t else some start
  | _, _ => none

def commonPrefixSize (a b : String) : Nat :=
  (firstDifference 0 a.toList b.toList).getD (min (byteSize a.toList) (byteSize b.toList))

/-- The nodes below one node, in order: the first with its edge, then its siblings. -/
inductive Forest where
  | nil
  | node (label : List Char) (terminal : Bool) (children siblings : Forest)
  deriving DecidableEq, Repr

namespace Forest

def leaf (label : List Char) : Forest :=
  node label true nil nil

/-- The nodes with a text stored below them, and whether it is new. An edge that the text
leaves halfway is cut there, and a text that shares no edge becomes the last sibling. -/
def insert : Forest → List Char → Forest × Bool
  | nil, s => (leaf s, true)
  | node label terminal children siblings, s =>
    let common := commonPrefix label s
    let rest := s.drop common.length
    if common = [] then
      let r := siblings.insert s
      (node label terminal children r.1, r.2)
    else if common = label then
      if rest = [] then (node label true children siblings, !terminal)
      else
        let r := children.insert rest
        (node label terminal r.1 siblings, r.2)
    else
      let tail := label.drop common.length
      if rest = [] then (node common true (node tail terminal children nil) siblings, true)
      else (node common false (node tail terminal children (leaf rest)) siblings, true)

def contains : Forest → List Char → Bool
  | nil, _ => false
  | node label terminal children siblings, s =>
    if label.isPrefixOf s then
      let rest := s.drop label.length
      if rest = [] then terminal else children.contains rest
    else siblings.contains s

def collect : Forest → List Char → List (List Char)
  | nil, _ => []
  | node label terminal children siblings, path =>
    (if terminal then [path ++ label] else []) ++ children.collect (path ++ label) ++
      siblings.collect path

def complete : Forest → List Char → List (List Char)
  | nil, _ => []
  | node label terminal children siblings, s =>
    let common := commonPrefix label s
    if common = [] then siblings.complete s
    else if common = label then
      let rest := s.drop label.length
      if rest = [] then (if terminal then [[]] else []) ++ children.collect []
      else children.complete rest
    else if common = s then
      let tail := label.drop s.length
      (if terminal then [tail] else []) ++ children.collect tail
    else []

def terminals : Forest → Nat
  | nil => 0
  | node _ terminal children siblings =>
    (if terminal then 1 else 0) + children.terminals + siblings.terminals

end Forest

/-- A node with the edge that leads to it. -/
structure Forest.Node where
  label : List Char := []
  terminal : Bool := false
  children : Forest := .nil
  deriving DecidableEq, Repr

namespace Forest.Node

def insert (n : Node) (s : List Char) : Node × Bool :=
  if s = [] then ({ n with terminal := true }, !n.terminal)
  else
    let r := n.children.insert s
    ({ n with children := r.1 }, r.2)

def contains (n : Node) (s : List Char) : Bool :=
  if s = [] then n.terminal else n.children.contains s

def collect (n : Node) : List (List Char) :=
  (if n.terminal then [[]] else []) ++ n.children.collect []

def complete (n : Node) (s : List Char) : List (List Char) :=
  if s = [] then n.collect else n.children.complete s

end Forest.Node

structure Trie where
  root : Forest.Node := {}
  size : Nat := 0
  deriving DecidableEq, Repr

namespace Trie

def empty : Trie := {}

def forest (t : Trie) : Forest :=
  t.root.children

/-- The empty text is not stored, so the root stays as it is. -/
def insert (t : Trie) (s : String) : Trie × Bool :=
  if s.toList = [] then (t, false)
  else
    let r := t.root.insert s.toList
    (⟨r.1, if r.2 then t.size + 1 else t.size⟩, r.2)

def insertAll (t : Trie) : List String → Trie
  | [] => t
  | s :: rest => (t.insert s).1.insertAll rest

def ofList (texts : List String) : Trie :=
  empty.insertAll texts

def isEmpty (t : Trie) : Bool :=
  t.size == 0

def contains (t : Trie) (s : String) : Bool :=
  s.toList ≠ [] && t.root.contains s.toList

def toList (t : Trie) : List String :=
  t.root.collect.map String.ofList

def complete (t : Trie) (term : String) : List String :=
  (t.root.complete term.toList).map String.ofList

end Trie

end CqlConsole
