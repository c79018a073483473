import CqlConsole.Proofs.Token.Pieces

/-!
# Parentheses among tokens

The depth of a list of tokens: how many more parentheses are opened than closed.
White space and places have no part in it.
-/

set_option autoImplicit false

namespace CqlConsole.Token

def weight (t : Token) : Int :=
  if t.isOpenBracket then 1 else if t.isCloseBracket then -1 else 0

def depth : List Token → Int
  | [] => 0
  | t :: ts => t.weight + depth ts

@[simp] theorem depth_nil : depth [] = 0 := rfl

@[simp] theorem depth_cons (t : Token) (ts : List Token) :
    depth (t :: ts) = t.weight + depth ts := rfl

theorem weight_of_kind {t : Token} (h : t.kind ≠ .bracket) : t.weight = 0 := by
  simp [weight, isOpenBracket, isCloseBracket, is, h]

theorem weight_eq (t : Token) :
    t.weight = (if t.isOpenBracket then 1 else 0) - if t.isCloseBracket then 1 else 0 := by
  rw [weight]
  split_ifs with hopen hclose
  · simp only [isOpenBracket, isCloseBracket, is, Bool.and_eq_true, beq_iff_eq] at hopen hclose
    rw [hopen.2] at hclose
    exact absurd hclose.2 (by decide)
  · rfl
  · rfl
  · rfl

theorem depth_eq_count (ts : List Token) :
    depth ts = (ts.countP isOpenBracket : Int) - ts.countP isCloseBracket := by
  induction ts with
  | nil => rfl
  | cons t ts ih =>
    rw [depth_cons, ih, weight_eq, List.countP_cons, List.countP_cons]
    split_ifs <;> omega

theorem depth_append (ts us : List Token) : depth (ts ++ us) = depth ts + depth us := by
  induction ts with
  | nil => exact (Int.zero_add _).symm
  | cons t ts ih => rw [List.cons_append, depth_cons, depth_cons, ih, Int.add_assoc]

theorem depth_solid (ts : List Token) :
    depth (ts.filter fun t => t.kind != .whitespace) = depth ts := by
  induction ts with
  | nil => rfl
  | cons t ts ih =>
    rw [List.filter_cons, depth_cons]
    split_ifs with hk
    · rw [depth_cons, ih]
    · have hspace : t.kind = .whitespace := by simpa using hk
      rw [ih, weight_of_kind (by simp [hspace]), Int.zero_add]

theorem natAbs_depth_le (ts : List Token) : (depth ts).natAbs ≤ ts.length := by
  induction ts with
  | nil => exact Nat.le_refl _
  | cons t ts ih =>
    have hweight : t.weight.natAbs ≤ 1 := by
      rw [weight]
      split_ifs <;> decide
    rw [depth_cons, List.length_cons]
    omega

theorem depth_unplaced (ts : List Token) : depth (ts.map unplaced) = depth ts := by
  induction ts with
  | nil => rfl
  | cons t ts ih =>
    rw [List.map_cons, depth_cons, ih]
    rfl

end CqlConsole.Token
