import CqlConsole.Text.Picture
import CqlConsole.Text.Width

/-!
# Lines on screen

The columns of a line are those of its characters, except where neighbours are
drawn as one: pictures that are joined, modified or asked for by a selector,
flags, and the ligatures of some scripts. A line is read from its end. What
follows a place decides how many columns the character at that place adds,
which may be none, or one less than nothing.
-/

set_option autoImplicit false

namespace CqlConsole.Text

/-- What follows a place in a line and can be drawn as one with the character there. The
constructors with a flag also say whether a joiner stands before what they name. -/
inductive Follower
  | nothing
  | modifier
  | regionLetter
  | regionLetters
  | picture
  | joinedPicture
  | joinedKey
  | joinedRegionLetter
  /-- As many letters of regions as make whole flags, a joiner, then a picture. -/
  | joinedFlags
  /-- One more letter than whole flags have, a joiner, then a picture. -/
  | joinedFlagsAndLetter
  /-- So many invisible letters, the end of a flag's name, a joiner, then a picture. -/
  | tagLetters (count : Nat)
  | tagDigits (count : Nat)
  | raiE
  | raiAi
  | alef
  | lamed (joined : Bool)
  | ya (joined : Bool)
  | vowelAndYa
  | tifinagh (joined : Bool)
  | tifinaghJoined
  | lisuTone
  | orkhonI (joined : Bool)
  | khmerSubscript
  deriving DecidableEq, Repr

namespace Follower

def isLetter : Follower → Bool
  | alef | lamed _ | ya _ | vowelAndYa | tifinagh _ | tifinaghJoined | lisuTone | orkhonI _ => true
  | khmerSubscript => true
  | _ => false

def isPatient (f : Follower) : Bool :=
  f.isLetter && f ≠ alef

def isJoined : Follower → Bool
  | joinedPicture | joinedKey => true
  | _ => false

def afterJoiner : Follower → Follower
  | lamed _ => lamed true
  | ya _ => ya true
  | tifinagh _ => tifinagh true
  | orkhonI _ => orkhonI true
  | f => f

end Follower

def isPassedOver (c : Char) : Bool :=
  inRanges [(0x34F, 0x34F), (0x17B4, 0x17B5), (0x180B, 0x180D), (0x180F, 0x180F),
    (0x200D, 0x200D), (0xFE00, 0xFE0F), (0xE0100, 0xE01EF)] c.toNat

def isCursiveMark (c : Char) : Bool :=
  charWidth c = 0 && !inRanges cursiveBreakRanges c.toNat

def isAlef (c : Char) : Bool :=
  inRanges [(0x622, 0x623), (0x625, 0x625), (0x627, 0x627), (0x671, 0x673), (0x675, 0x675),
    (0x773, 0x774), (0x870, 0x882)] c.toNat

def isLam (c : Char) : Bool :=
  inRanges [(0x644, 0x644), (0x6B5, 0x6B8), (0x76A, 0x76A), (0x8A6, 0x8A6),
    (0x8C7, 0x8C7)] c.toNat

def isTifinaghConsonant (c : Char) : Bool :=
  inRanges [(0x2D31, 0x2D65), (0x2D6F, 0x2D6F)] c.toNat

def isKhmerSubscript (c : Char) : Bool :=
  inRanges [(0x1780, 0x1782), (0x1784, 0x1787), (0x1789, 0x178C), (0x178E, 0x1793),
    (0x1795, 0x1798), (0x179B, 0x179D), (0x17A0, 0x17A0), (0x17A2, 0x17A2), (0x17A7, 0x17A7),
    (0x17AB, 0x17AC), (0x17AF, 0x17AF)] c.toNat

def followerOf (c : Char) : Follower :=
  if c.toNat ≤ 0xA0 then .nothing
  else if c = '\u05DC' then .lamed false
  else if c = '\u1A10' then .ya false
  else if c = '\uA4FC' || c = '\uA4FD' then .lisuTone
  else if c.toNat = 0x10C03 then .orkhonI false
  else if c.toNat = 0x16D67 then .raiE
  else if c.toNat = 0x16D68 then .raiAi
  else if isAlef c then .alef
  else if isKhmerSubscript c then .khmerSubscript
  else if isTifinaghConsonant c then .tifinagh false
  else if isRegionLetter c then .regionLetter
  else if isModifier c then .modifier
  else if inRanges pictureRanges c.toNat then .picture
  else .nothing

structure Reading where
  columns : Int
  follower : Follower

def readTags (c : Char) : Follower → Option Reading
  | .tagLetters n =>
    if isTagLetter c && n < 6 then some ⟨0, .tagLetters (n + 1)⟩
    else if isTagDigit c && n ≤ 4 then some ⟨0, .tagDigits 1⟩
    else if c.toNat = 0x1F3F4 && 3 ≤ n then some ⟨0, .picture⟩
    else none
  | .tagDigits n =>
    if isTagDigit c && n < 3 then some ⟨0, .tagDigits (n + 1)⟩
    else if c.toNat = 0x1F3F4 && n = 3 then some ⟨0, .picture⟩
    else none
  | _ => none

def readJoined (c : Char) : Option Reading :=
  if c = '\u20E3' then some ⟨0, .joinedKey⟩
  else if isRegionLetter c then some ⟨1, .joinedRegionLetter⟩
  else if isModifier c then some ⟨0, .modifier⟩
  else if c.toNat = 0xE007F then some ⟨0, .tagLetters 0⟩
  else if followerOf c = .picture then some ⟨0, .picture⟩
  else none

def readTogether (c : Char) : Follower → Option Reading
  | .alef =>
    if isLam c then some ⟨0, .nothing⟩
    else if isCursiveMark c then some ⟨0, .alef⟩
    else none
  | .lamed true => if c = '\u05D0' then some ⟨0, .nothing⟩ else none
  | .khmerSubscript => if c = '\u17D2' then some ⟨-1, .nothing⟩ else none
  | .ya true => if c = '\u1A17' then some ⟨0, .vowelAndYa⟩ else none
  | .vowelAndYa => if c = '\u1A15' then some ⟨0, .nothing⟩ else none
  | .tifinagh joined =>
    if c = '\u2D7F' then some ⟨1, .tifinaghJoined⟩
    else if joined && isTifinaghConsonant c then some ⟨0, .nothing⟩
    else none
  | .tifinaghJoined => if isTifinaghConsonant c then some ⟨-1, .nothing⟩ else none
  | .lisuTone => if '\uA4F8' ≤ c && c ≤ '\uA4FB' then some ⟨0, .nothing⟩ else none
  | .orkhonI true => if c.toNat = 0x10C32 then some ⟨0, .nothing⟩ else none
  | .modifier =>
    if inRanges modifiableRanges c.toNat then some ⟨0, .picture⟩
    else if c = '\u200D' then some ⟨0, .joinedPicture⟩
    else none
  | .regionLetter => if isRegionLetter c then some ⟨1, .regionLetters⟩ else none
  | .regionLetters =>
    if isRegionLetter c then some ⟨1, .regionLetters⟩
    else if c = '\u200D' then some ⟨0, .joinedPicture⟩
    else none
  | .picture => if c = '\u200D' then some ⟨0, .joinedPicture⟩ else none
  | .joinedPicture => readJoined c
  | .joinedRegionLetter => if isRegionLetter c then some ⟨-1, .joinedFlags⟩ else none
  | .joinedFlags =>
    if isRegionLetter c then some ⟨3, .joinedFlagsAndLetter⟩
    else if c = '\u200D' then some ⟨0, .joinedPicture⟩
    else none
  | .joinedFlagsAndLetter =>
    if isRegionLetter c then some ⟨-1, .joinedFlags⟩
    else if c = '\u200D' then some ⟨0, .joinedPicture⟩
    else none
  | .raiE =>
    if c.toNat = 0x16D63 || c.toNat = 0x16D69 then some ⟨0, .nothing⟩
    else if c.toNat = 0x16D67 then some ⟨0, .raiAi⟩
    else if c.toNat = 0x16D68 then some ⟨1, .raiE⟩
    else none
  | .raiAi => if c.toNat = 0x16D63 then some ⟨0, .nothing⟩ else none
  | f => readTags c f

/-- A character that is no selector: passed over before a letter of a ligature, drawn as
one with what follows, or drawn by itself. -/
def readPlain (c : Char) (f : Follower) : Reading :=
  if f.isPatient && c = '\u200D' then ⟨0, f.afterJoiner⟩
  else if f.isPatient && isPassedOver c then ⟨0, f⟩
  else (readTogether c f).getD ⟨charWidth c, followerOf c⟩

structure Lookahead where
  follower : Follower
  asPicture : Bool := false
  asSign : Bool := false
  asWide : Bool := false

namespace Lookahead

/-- A selector keeps the letter or the joined picture behind it in reach; any other
follower is cut off by it. -/
def withPicture (s : Lookahead) : Lookahead :=
  if s.follower.isLetter || s.follower.isJoined then { s with asPicture := true }
  else { follower := .nothing, asPicture := true }

def withSign (s : Lookahead) : Lookahead :=
  if s.follower.isLetter then { s with asSign := true }
  else { follower := .nothing, asSign := true }

def withWide (s : Lookahead) : Lookahead :=
  if s.follower.isLetter then { s with asWide := true }
  else { follower := .nothing, asWide := true }

def withoutPicture (s : Lookahead) : Lookahead :=
  if !s.asPicture then s
  else if s.follower.isLetter then { s with asPicture := false }
  else { follower := .nothing }

end Lookahead

def isQuotation (c : Char) : Bool :=
  c = '\u2018' || c = '\u2019' || c = '\u201C' || c = '\u201D'

def readChar (c : Char) (s : Lookahead) : Int × Lookahead :=
  if s.asPicture && inRanges picturableRanges c.toNat then
    (if s.follower.isJoined then 0 else 2, { follower := .picture })
  else
    let s := s.withoutPicture
    if c.toNat ≤ 0xA0 then (1, { follower := .nothing })
    else if c = '\uFE0F' then (0, s.withPicture)
    else if c = '\uFE0E' then (0, s.withSign)
    else if c = '\uFE01' then (0, s.withWide)
    else if s.asSign && inRanges textualRanges c.toNat then (1, { follower := .nothing })
    else if s.asWide && isQuotation c then (2, { follower := .nothing })
    else
      let read := readPlain c s.follower
      (read.columns, { follower := read.follower })

def readLine : List Char → Int × Lookahead
  | [] => (0, { follower := .nothing })
  | c :: s =>
    let rest := readLine s
    let here := readChar c rest.2
    (here.1 + rest.1, here.2)

def lineWidth (s : List Char) : Nat :=
  (readLine s).1.toNat

end CqlConsole.Text
