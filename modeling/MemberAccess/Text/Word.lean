import MemberAccess.Text.Identifier

/-!
# Words of code

A word of code begins and goes on as an identifier does, but by a later edition of the two
classes, Unicode 17. An edition only adds characters, so every identifier is a word.

## Main definitions

* `startsWord`, `continuesWord`: the two classes.
* `IsWord`: the texts that are one word.
* `startsWord_of_startsIdentifier`, `continuesWord_of_continuesIdentifier`: the classes only grow.
-/

namespace MemberAccess.Text

/-- The code points that `XID_Start` gains in Unicode 17. -/
def laterStarts : Ranges := [
  (0x88F, 0x88F), (0xC5C, 0xC5C), (0xCDC, 0xCDC), (0xA7CE, 0xA7CF), (0xA7D2, 0xA7D2),
  (0xA7D4, 0xA7D4), (0xA7F1, 0xA7F1), (0x10940, 0x10959), (0x10EC5, 0x10EC7), (0x11DB0, 0x11DDB),
  (0x16EA0, 0x16EB8), (0x16EBB, 0x16ED3), (0x16FF2, 0x16FF6), (0x187F8, 0x187FF),
  (0x18D09, 0x18D1E), (0x18D80, 0x18DF2), (0x1E6C0, 0x1E6DE), (0x1E6E0, 0x1E6E2),
  (0x1E6E4, 0x1E6E5), (0x1E6E7, 0x1E6ED), (0x1E6F0, 0x1E6F4), (0x1E6FE, 0x1E6FF),
  (0x2B73A, 0x2B73F), (0x2CEA2, 0x2CEAD), (0x323B0, 0x33479)]

/-- The other code points that `XID_Continue` gains in Unicode 17. -/
def laterMarks : Ranges := [
  (0x1ACF, 0x1ADD), (0x1AE0, 0x1AEB), (0x10EFA, 0x10EFB), (0x11B60, 0x11B67), (0x11DE0, 0x11DE9),
  (0x1E6E3, 0x1E6E3), (0x1E6E6, 0x1E6E6), (0x1E6EE, 0x1E6EF), (0x1E6F5, 0x1E6F5)]

/-- Whether a word may begin with `c`. -/
def startsWord (c : Char) : Bool :=
  startsIdentifier c || laterStarts.contains c.toNat

/-- Whether `c` may stand in a word after its first character. -/
def continuesWord (c : Char) : Bool :=
  startsWord c || continuesIdentifier c || laterMarks.contains c.toNat

/-- Words may begin as identifiers do. -/
theorem startsWord_of_startsIdentifier {c : Char} (h : startsIdentifier c = true) :
    startsWord c = true := by
  simp [startsWord, h]

/-- Words may go on as identifiers do. -/
theorem continuesWord_of_continuesIdentifier {c : Char} (h : continuesIdentifier c = true) :
    continuesWord c = true := by
  simp [continuesWord, h]

/-- **Words.** A text that is one word of code: a start character, then characters that continue
it. -/
def IsWord : List Char → Prop
  | [] => False
  | c :: more => startsWord c = true ∧ ∀ d ∈ more, continuesWord d = true

instance : DecidablePred IsWord
  | [] => inferInstanceAs (Decidable False)
  | c :: more =>
    decidable_of_iff (startsWord c = true ∧ more.all continuesWord = true)
      (and_congr Iff.rfl List.all_eq_true)

/-- Every identifier is a word. -/
theorem IsIdentifier.isWord {cs : List Char} (h : IsIdentifier cs) : IsWord cs := by
  cases cs with
  | nil => exact h
  | cons c more =>
      exact ⟨startsWord_of_startsIdentifier h.1, fun d hd =>
        continuesWord_of_continuesIdentifier (h.2 d hd)⟩

end MemberAccess.Text
