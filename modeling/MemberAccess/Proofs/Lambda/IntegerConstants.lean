import Mathlib.Data.Nat.Digits.Defs
import MemberAccess.Lambda.Token.Integer
import MemberAccess.Proofs.Lambda.Layout

/-!
# What integer constants denote

A run of digits is an integer constant, and denotes its decimal value, if that is a word. It is read
in words alone, and neither zeros at its front nor its length make that wrong: what is too large
once stays too large whatever digits follow, so a sum or a product that is no word is enough to know
that the run denotes none. A run that denotes no word is no token, and is rejected as a whole.

Signs are symbols, and only a digit begins an integer. So the integers of a text, and of the lambda
that is read from it, are not negative, and each of them is the decimal value of a run in the text.

## Main definitions

* `Digits.decimalValue`: what a run of digits denotes.
* `ScannedBefore`: the text before a token.
* `Expr.Holds`: the constants of an expression.
* `IsIntegerAt`: the runs of digits that are integers.

## Main results

* `Digits.readWord?_eq`: a run of any length is read in words exactly.
* `Lexeme.first_digits`, `Lexeme.isRun_of_int`: integers are runs of digits.
* `Derives.literal_mem`: the constants of a phrase are tokens of it.
* `integer_constants_exact`: runs of digits are read exactly, and every integer is one.
-/

namespace MemberAccess

namespace Digits

/-! ### The decimal value -/

/-- **The decimal value of a run of digits:** the last one counts once, and each other ten times
what it would count one place further on. -/
def decimalValue (cs : List Char) : Nat :=
  Nat.ofDigits 10 (cs.map fun c => c.toNat - '0'.toNat).reverse

/-- A digit is worth at most nine. -/
theorem toNat_sub_le_of_isDigit {c : Char} (h : isDigit c = true) : c.toNat - '0'.toNat ≤ 9 := by
  simp only [isDigit, Bool.and_eq_true, decide_eq_true_eq] at h
  have hnine : c.toNat ≤ '9'.toNat := h.2
  exact Nat.sub_le_of_le_add hnine

/-- Appending the digits one by one counts each by its place. -/
theorem toNat_eq_decimalValue (cs : List Char) : toNat cs = decimalValue cs := by
  induction cs using List.reverseRecOn with
  | nil => rfl
  | append_singleton cs c ih =>
      rw [toNat_concat, ih, append, decimalValue, decimalValue, List.map_append,
        List.reverse_append]
      exact Nat.add_comm _ _

/-- A run of digits denotes a number below the power of ten of its length. -/
theorem decimalValue_lt {cs : List Char} (h : ∀ c ∈ cs, isDigit c = true) :
    decimalValue cs < 10 ^ cs.length := by
  have hdigits : ∀ d ∈ (cs.map fun c => c.toNat - '0'.toNat).reverse, d < 10 := by
    intro d hd
    obtain ⟨c, hc, rfl⟩ := List.mem_map.1 (List.mem_reverse.1 hd)
    exact Nat.lt_succ_of_le (toNat_sub_le_of_isDigit (h c hc))
  have hlt := Nat.ofDigits_lt_base_pow_length (by decide : 1 < 10) hdigits
  rwa [List.length_reverse, List.length_map] at hlt

/-! ### Words -/

/-- A number fits in a word exactly if it is the number of that word. -/
theorem toWord?_eq_some_iff {n : Int} {w : Int64} : toWord? n = some w ↔ w.toInt = n := by
  have hlow := Int64.minValue_le_toInt w
  have hhigh := Int64.toInt_le w
  rw [toWord?]
  split
  next hn =>
    rw [Int64.toInt_minValue, Int64.toInt_maxValue] at hn
    have hvalue : (Int64.ofInt n).toInt = n := Int64.toInt_ofInt_of_le hn.1 (by omega)
    rw [Option.some.injEq, ← Int64.toInt_inj, hvalue]
    exact eq_comm
  next hn =>
    have hne : w.toInt ≠ n := fun heq => hn (heq ▸ ⟨hlow, hhigh⟩)
    exact iff_of_false (Option.some_ne_none w).symm hne

/-- A number that is no word is too large for one. -/
theorem toWord?_eq_none_iff {n : Nat} : toWord? n = none ↔ Lexeme.intLimit < n := by
  rw [toWord?, Int64.toInt_minValue, Int64.toInt_maxValue, Lexeme.intLimit]
  split
  next hn => exact iff_of_false (Option.some_ne_none _) (by omega)
  next hn => exact iff_of_true rfl (by omega)

/-- The word of a digit is worth as much as the digit. -/
theorem toInt_digitWord {c : Char} (h : isDigit c = true) :
    (digitWord c).toInt = (c.toNat - '0'.toNat : Nat) := by
  have hle := toNat_sub_le_of_isDigit h
  exact Int64.toInt_ofNat_of_lt (by omega)

/-! ### Wrapping arithmetic -/

/-- Words that wrap around keep sums and products up to multiples of their number. -/
theorem appendWrapping_ofNat (n : Nat) (c : Char) :
    appendWrapping (Int64.ofNat n) c = Int64.ofNat (append n c) := by
  rw [appendWrapping, append, Int64.ofNat_add, Int64.ofNat_mul]
  rfl

/-- Digits are appended with wrapping as they are to the number, and that is wrapped at the end. -/
theorem foldl_appendWrapping (n : Nat) (cs : List Char) :
    cs.foldl appendWrapping (Int64.ofNat n) = Int64.ofNat (cs.foldl append n) := by
  induction cs generalizing n with
  | nil => rfl
  | cons c cs ih => rw [List.foldl_cons, appendWrapping_ofNat, ih, List.foldl_cons]

/-! ### Checked arithmetic -/

/-- A number does not get smaller by one digit more. -/
theorem le_append (n : Nat) (c : Char) : n ≤ append n c := by
  rw [append]
  omega

/-- More digits do not make a number smaller. -/
theorem le_foldl_append (n : Nat) (cs : List Char) : n ≤ cs.foldl append n := by
  induction cs generalizing n with
  | nil => exact Nat.le_refl n
  | cons c cs ih => exact (le_append n c).trans (ih _)

/-- **One digit more.** The product is not larger than the sum, so the check of the product refuses
nothing that the check of the sum would let pass. -/
theorem appendChecked_eq {n : Int64} {k : Nat} (hn : n.toInt = k) {c : Char}
    (hc : isDigit c = true) : appendChecked n c = toWord? (append k c) := by
  have hten : (10 : Int64).toInt * n.toInt = (10 * k : Nat) := by
    rw [hn, Nat.cast_mul]
    rfl
  rw [appendChecked, hten, toInt_digitWord hc]
  cases hproduct : toWord? (10 * k : Nat) with
  | none =>
      have hlarge := toWord?_eq_none_iff.1 hproduct
      exact (toWord?_eq_none_iff.2 (Nat.lt_add_right _ hlarge)).symm
  | some product =>
      rw [Option.bind_eq_bind, Option.bind_some, toWord?_eq_some_iff.1 hproduct, ← Nat.cast_add,
        append]

/-- **The checks on the way** come to one check at the end, of the number that the digits
denote. -/
theorem foldlM_appendChecked {cs : List Char} (hcs : ∀ c ∈ cs, isDigit c = true) {n : Int64}
    {k : Nat} (hn : n.toInt = k) :
    cs.foldlM appendChecked n = toWord? (cs.foldl append k : Nat) := by
  induction cs generalizing n k with
  | nil => exact (toWord?_eq_some_iff.2 hn).symm
  | cons c cs ih =>
      obtain ⟨hc, hcs⟩ := List.forall_mem_cons.1 hcs
      rw [List.foldlM_cons, appendChecked_eq hn hc, List.foldl_cons]
      cases hword : toWord? (append k c) with
      | none =>
          -- What is too large stays too large, whatever digits follow.
          have hlarge := (toWord?_eq_none_iff.1 hword).trans_le (le_foldl_append (append k c) cs)
          exact (toWord?_eq_none_iff.2 hlarge).symm
      | some w => exact ih hcs (toWord?_eq_some_iff.1 hword)

/-- **A run of digits is read exactly,** whatever its length: the word that it denotes is its
decimal value, if that is a word, and else there is none. -/
theorem readWord?_eq {cs : List Char} (h : ∀ c ∈ cs, isDigit c = true) :
    readWord? cs = toWord? (decimalValue cs) := by
  rw [← toNat_eq_decimalValue, readWord?]
  split
  next hshort =>
    have hvalue : toNat cs < 10 ^ 15 := calc
      toNat cs = decimalValue cs := toNat_eq_decimalValue cs
      _ < 10 ^ cs.length := decimalValue_lt h
      _ ≤ 10 ^ 15 := Nat.pow_le_pow_right (by decide) hshort
    have hwrapped : cs.foldl appendWrapping 0 = Int64.ofNat (toNat cs) := foldl_appendWrapping 0 cs
    rw [hwrapped]
    exact (toWord?_eq_some_iff.2 (Int64.toInt_ofNat_of_lt (by omega))).symm
  next => exact foldlM_appendChecked h rfl

example : readWord? (List.replicate 100 '0' ++ ['7']) = some 7 := by decide

end Digits

open Digits

/-! ### Integers among the pieces of a text -/

namespace Lexeme

/-- **The piece of a run of digits** is the word that the run is read as, if there is one. -/
theorem ofDigits_eq {digits : List Char} (h : ∀ c ∈ digits, isDigit c = true) (rest : List Char) :
    ofDigits digits rest =
      ⟨(readWord? digits).map fun n => .literal (.int n), digits, rest⟩ := by
  rw [ofDigits, readWord?_eq h, toNat_eq_decimalValue]
  cases hword : toWord? (decimalValue digits) with
  | none =>
      rw [if_neg (Nat.not_le.2 (toWord?_eq_none_iff.1 hword))]
      rfl
  | some n =>
      have hvalue := toWord?_eq_some_iff.1 hword
      have hn : Int64.ofNat (decimalValue digits) = n := by
        rw [← Int64.ofInt_eq_ofNat, ← hvalue, Int64.ofInt_toInt]
      have hle : decimalValue digits ≤ intLimit := by
        have hlt := n.toInt_lt
        rw [intLimit]
        omega
      rw [if_pos hle, hn]
      rfl

/-- The piece that a run of digits is, before a text that ends it. -/
theorem first_digits {c : Char} {digits more : List Char} (h : IsRun (c :: digits))
    (hmore : EndsNumber more) :
    first c (digits ++ more) =
      ⟨(readWord? (c :: digits)).map fun n => .literal (.int n), c :: digits, more⟩ := by
  obtain ⟨hc, hdigits⟩ := List.forall_mem_cons.1 h.digits
  rw [first_of_isDigit hc, ofNumber_eq_ofDigits hdigits hmore, ofDigits_eq h.digits]

/-- No word is an integer constant. -/
theorem word_ne_int (name : List Char) (n : Int64) : word name ≠ .literal (.int n) := by
  rw [word]
  split
  · exact fun h => by cases h
  split
  · exact fun h => by cases h
  split
  · exact fun h => by cases h
  · exact fun h => by cases h

/-- **Only a digit begins an integer.** -/
theorem isDigit_of_int {c : Char} {more : List Char} {n : Int64}
    (h : (first c more).token? = some (.literal (.int n))) : isDigit c = true := by
  have hword : ∀ name, some (word name) ≠ some (.literal (.int n)) :=
    fun name heq => word_ne_int name n (Option.some.inj heq)
  have hsymbol : ∀ s : Option Symbol, s.map Token.symbol ≠ some (.literal (.int n)) := by
    intro s heq
    obtain ⟨s, -, hs⟩ := Option.map_eq_some_iff.1 heq
    cases hs
  refine Decidable.by_contra fun hc => ?_
  rw [first.eq_def, if_neg hc] at h
  split at h
  · split at h
    · split at h
      · cases h
      · exact hword _ h
    · exact hword _ h
  · split at h
    · simp only [ofString] at h
      split at h
      · obtain ⟨s, -, hs⟩ := Option.map_eq_some_iff.1 h
        cases hs
      · cases h
    · rw [ofSymbol.eq_def] at h
      split at h
      · split at h
        · cases h
        · exact hsymbol _ h
      · exact hsymbol _ h

/-- **An integer is a run of digits** in front of a text that ends it, and is its decimal value. -/
theorem isRun_of_int {c : Char} {slice rest : List Char} {n : Int64}
    (h : first c (slice ++ rest) = ⟨some (.literal (.int n)), c :: slice, rest⟩) :
    IsRun (c :: slice) ∧ EndsNumber rest ∧ n.toInt = decimalValue (c :: slice) := by
  have hc : isDigit c = true := isDigit_of_int (congrArg token? h)
  obtain ⟨digits, behind, hmore, hdigits, hends | ⟨d, more, rfl, hd⟩⟩ :=
    exists_digits (slice ++ rest)
  · have hrun : IsRun (c :: digits) :=
      ⟨List.cons_ne_nil c digits, List.forall_mem_cons.2 ⟨hc, hdigits⟩⟩
    rw [first_of_isDigit hc, hmore, ofNumber_eq_ofDigits hdigits hends, ofDigits_eq hrun.digits,
      readWord?_eq hrun.digits] at h
    simp only [mk.injEq, List.cons.injEq, true_and] at h
    obtain ⟨htoken, rfl, rfl⟩ := h
    obtain ⟨m, hm, heq⟩ := Option.map_eq_some_iff.1 htoken
    cases heq
    exact ⟨hrun, hends, toWord?_eq_some_iff.1 hm⟩
  · rw [first_of_isDigit hc, hmore, ofNumber_eq_ofFraction hdigits hd] at h
    cases congrArg token? h

end Lexeme

/-! ### The text before a token -/

/-- **A text before another, at a place, and its tokens.** No token reaches from it into the other
text. -/
inductive ScannedBefore (rest : List Char) : Nat → List Char → List Placed → Prop
  | here (offset : Nat) : ScannedBefore rest offset [] []
  | blank {offset : Nat} {c : Char} {cs : List Char} {placed : List Placed}
      (hc : isBlank c = true) (h : ScannedBefore rest (offset + c.utf8Size) cs placed) :
      ScannedBefore rest offset (c :: cs) placed
  | piece {offset : Nat} {c : Char} {slice cs : List Char} {t : Token} {placed : List Placed}
      (hc : isBlank c = false)
      (hfirst : Lexeme.first c (slice ++ (cs ++ rest)) = ⟨some t, c :: slice, cs ++ rest⟩)
      (h : ScannedBefore rest (offset + byteLength (c :: slice)) cs placed) :
      ScannedBefore rest offset (c :: (slice ++ cs))
        (⟨t, offset, offset + byteLength (c :: slice)⟩ :: placed)

/-- **A text is split up to a place and from there on.** -/
theorem ScannedBefore.scanFrom_eq {rest front : List Char} {offset : Nat} {placed : List Placed}
    (h : ScannedBefore rest offset front placed) :
    scanFrom offset (front ++ rest) =
      (scanFrom (offset + byteLength front) rest).map (placed ++ ·) := by
  induction h with
  | here offset =>
      rw [List.nil_append, byteLength, Nat.add_zero]
      cases scanFrom offset rest <;> rfl
  | @blank offset c cs placed hc _ ih =>
      rw [List.cons_append, scanFrom_blank hc, ih, byteLength, Nat.add_assoc]
  | @piece offset c slice cs t placed hc hfirst _ ih =>
      rw [List.cons_append, List.append_assoc, scanFrom_token hc hfirst, ih, ← List.cons_append,
        byteLength_append, Nat.add_assoc]
      cases scanFrom _ rest <;> rfl

/-- **Each token of a text** is the first piece behind what is split before it. -/
theorem Scanned.exists_before {offset : Nat} {cs : List Char} {placed : List Placed}
    (h : Scanned offset cs placed) : ∀ p ∈ placed, ∃ front before c slice rest,
      cs = front ++ (c :: slice ++ rest) ∧
        ScannedBefore (c :: slice ++ rest) offset front before ∧
        Lexeme.first c (slice ++ rest) = ⟨some p.token, c :: slice, rest⟩ ∧
        p.start = offset + byteLength front ∧
        p.stop = offset + byteLength (front ++ c :: slice) := by
  induction h with
  | nil => exact fun p hp => absurd hp List.not_mem_nil
  | @blank offset c cs placed hc _ ih =>
      intro p hp
      obtain ⟨front, before, d, slice, rest, rfl, hbefore, hfirst, hstart, hstop⟩ := ih p hp
      refine ⟨c :: front, before, d, slice, rest, rfl, .blank hc hbefore, hfirst, ?_, ?_⟩
      · rw [hstart, byteLength, Nat.add_assoc]
      · rw [hstop, List.cons_append, byteLength, Nat.add_assoc]
  | @piece offset c slice rest t placed hc hfirst _ ih =>
      intro p hp
      rcases List.mem_cons.1 hp with rfl | hp
      · exact ⟨[], [], c, slice, rest, rfl, .here offset, hfirst, rfl, rfl⟩
      · obtain ⟨front, before, d, slice', rest', rfl, hbefore, hfirst', hstart, hstop⟩ := ih p hp
        refine ⟨c :: (slice ++ front), _, d, slice', rest', by simp, .piece hc hfirst hbefore,
          hfirst', ?_, ?_⟩
        · rw [hstart, ← List.cons_append, byteLength_append, Nat.add_assoc]
        · rw [hstop, ← List.cons_append, List.append_assoc, byteLength_append (c :: slice),
            Nat.add_assoc]

/-! ### Constants of a lambda -/

/-- **A constant stands in an expression.** -/
inductive Expr.Holds (value : Literal) : Expr → Prop
  | constant : Holds value (.constant value)
  | member {target : Expr} {name : String} (h : Holds value target) :
      Holds value (.member target name)
  | cast {operand : Expr} {type : String} (h : Holds value operand) :
      Holds value (.cast operand type)
  | call {path : String} {args : List Expr} {arg : Expr} (harg : arg ∈ args)
      (h : Holds value arg) : Holds value (.call path args)
  | receiver {receiver : Expr} {name : String} {args : List Expr} (h : Holds value receiver) :
      Holds value (.method receiver name args)
  | argument {receiver : Expr} {name : String} {args : List Expr} {arg : Expr}
      (harg : arg ∈ args) (h : Holds value arg) : Holds value (.method receiver name args)
  | target {target position : Expr} (h : Holds value target) :
      Holds value (.index target position)
  | position {target position : Expr} (h : Holds value position) :
      Holds value (.index target position)
  | unary {op : UnaryOp} {operand : Expr} (h : Holds value operand) :
      Holds value (.unary op operand)
  | left {op : BinaryOp} {left right : Expr} (h : Holds value left) :
      Holds value (.binary op left right)
  | right {op : BinaryOp} {left right : Expr} (h : Holds value right) :
      Holds value (.binary op left right)

/-- A constant stands in what a phrase stands for. -/
def Nonterminal.Holds (value : Literal) : (n : Nonterminal) → n.Tree → Prop
  | arguments, args => ∃ arg ∈ args, arg.Holds value
  | atom, e | applied, e | prefixed, e | level _, e => e.Holds value

/-- **The constants of a phrase are tokens of it.** -/
theorem Derives.literal_mem {param : String} {value : Literal} {n : Nonterminal} {m : Nat}
    {ts rest : List Token} {tree : n.Tree} (h : Derives param n m ts tree rest)
    (hvalue : n.Holds value tree) : .literal value ∈ ts := by
  -- What stands behind the first part of a phrase is among the tokens that this part leaves.
  induction h with
  | noArgument =>
      obtain ⟨arg, harg, -⟩ := hvalue
      cases harg
  | lastArgument _ ih =>
      obtain ⟨arg, harg, hholds⟩ := hvalue
      obtain rfl := List.mem_singleton.1 harg
      exact ih hholds
  | argument harg _ ih ihargs =>
      obtain ⟨arg, hmem, hholds⟩ := hvalue
      rcases List.mem_cons.1 hmem with rfl | hmem
      · exact ih hholds
      · exact harg.isSuffix.mem (List.mem_cons_of_mem _ (ihargs ⟨arg, hmem, hholds⟩))
  | constant =>
      cases hvalue
      exact List.mem_cons_self
  | parameter | free => cases hvalue
  | call hpath _ ih =>
      cases hvalue with
      | call harg hholds =>
          exact hpath.isSuffix.mem (List.mem_cons_of_mem _ (ih ⟨_, harg, hholds⟩))
  | parens _ ih => exact List.mem_cons_of_mem _ (ih hvalue)
  | member _ ih =>
      cases hvalue with
      | member hholds => exact ih hholds
  | method hreceiver _ ih ihargs =>
      cases hvalue with
      | receiver hholds => exact ih hholds
      | argument harg hholds =>
          have hmem := ihargs ⟨_, harg, hholds⟩
          refine hreceiver.isSuffix.mem (List.mem_cons_of_mem _ (List.mem_cons_of_mem _ ?_))
          exact List.mem_cons_of_mem _ hmem
  | index htarget _ ih ihposition =>
      cases hvalue with
      | target hholds => exact ih hholds
      | position hholds =>
          exact htarget.isSuffix.mem (List.mem_cons_of_mem _ (ihposition hholds))
  | unary _ _ ih =>
      cases hvalue with
      | unary hholds => exact List.mem_cons_of_mem _ (ih hholds)
  | cast _ _ ih =>
      cases hvalue with
      | cast hholds => exact ih hholds
  | binary _ hleft _ ih ihright =>
      cases hvalue with
      | left hholds => exact ih hholds
      | right hholds => exact hleft.isSuffix.mem (List.mem_cons_of_mem _ (ihright hholds))
  | ofAtom _ ih | ofApplied _ ih | ofPrefixed _ ih | ofTighter _ ih => exact ih hvalue

/-- **The constants of a lambda are tokens of its text.** -/
theorem Lambda.exists_token_of_holds {source : String} {l : Lambda} {value : Literal}
    (h : ofText source = .ok l) (hvalue : l.body.Holds value) :
    ∃ placed, scan source.toList = .ok placed ∧ ∃ p ∈ placed, p.token = .literal value := by
  obtain ⟨ts, hscan, htokens⟩ := ofText_eq_ok_iff.1 h
  obtain ⟨m, -, hspells⟩ := spells_of_ofTokens htokens
  have hmem : .literal value ∈ ts := by
    cases hspells with
    | bars hbody => exact (List.suffix_append [_, _, _] _).mem (hbody.literal_mem hvalue)
    | arrow hbody => exact (List.suffix_append [_, _] _).mem (hbody.literal_mem hvalue)
  cases hplaced : scan source.toList with
  | error piece =>
      rw [hplaced] at hscan
      cases hscan
  | ok placed =>
      rw [hplaced] at hscan
      obtain rfl : placed.map Placed.token = ts := Except.ok.inj hscan
      exact ⟨placed, rfl, List.mem_map.1 hmem⟩

/-! ### Integers in a text -/

/-- **A run of digits that is an integer** from a byte of a text to another. It begins where a token
does, no digit goes on from it and no fraction, and the integer is its decimal value. -/
def IsIntegerAt (cs : List Char) (start stop : Nat) (n : Int64) : Prop :=
  ∃ front digits more before, cs = front ++ (digits ++ more) ∧
    ScannedBefore (digits ++ more) 0 front before ∧ IsRun digits ∧ EndsNumber more ∧
    start = byteLength front ∧ stop = byteLength (front ++ digits) ∧
    n.toInt = decimalValue digits

/-- A decimal value is not negative. -/
theorem IsIntegerAt.nonneg {cs : List Char} {start stop : Nat} {n : Int64}
    (h : IsIntegerAt cs start stop n) : 0 ≤ n.toInt := by
  obtain ⟨-, digits, -, -, -, -, -, -, -, -, hvalue⟩ := h
  exact hvalue ▸ Int.natCast_nonneg (decimalValue digits)

/-- The integers among the tokens of a text. -/
theorem isIntegerAt_of_scan {cs : List Char} {placed : List Placed} (h : scan cs = .ok placed)
    {p : Placed} (hp : p ∈ placed) {n : Int64} (hn : p.token = .literal (.int n)) :
    IsIntegerAt cs p.start p.stop n := by
  obtain ⟨front, before, c, slice, rest, hcs, hbefore, hfirst, hstart, hstop⟩ :=
    (scanned_of_scanFrom h).exists_before p hp
  rw [hn] at hfirst
  obtain ⟨hrun, hends, hvalue⟩ := Lexeme.isRun_of_int hfirst
  rw [Nat.zero_add] at hstart hstop
  exact ⟨front, c :: slice, rest, before, hcs, hbefore, hrun, hends, hstart, hstop, hvalue⟩

/-- A run of digits in a text, where a token begins, in front of a text that ends it. -/
theorem scan_digits {front digits more : List Char} {before : List Placed}
    (hbefore : ScannedBefore (digits ++ more) 0 front before) (hrun : IsRun digits)
    (hends : EndsNumber more) :
    scan (front ++ (digits ++ more)) =
      match readWord? digits with
      | some n => (scanFrom (byteLength (front ++ digits)) more).map fun later =>
          before ++ ⟨.literal (.int n), byteLength front, byteLength (front ++ digits)⟩ :: later
      | none => .error ⟨byteLength front, digits⟩ := by
  rw [scan, hbefore.scanFrom_eq, Nat.zero_add]
  obtain ⟨c, digits, rfl⟩ := List.exists_cons_of_ne_nil hrun.ne_nil
  have hc : isBlank c = false := isBlank_eq_false (.inr (hrun.digits c List.mem_cons_self))
  have hfirst := Lexeme.first_digits hrun hends
  rw [List.cons_append]
  cases hread : readWord? (c :: digits) with
  | none =>
      rw [hread] at hfirst
      rw [scanFrom_unrecognized hc hfirst]
      rfl
  | some n =>
      rw [hread] at hfirst
      rw [scanFrom_token hc hfirst, byteLength_append front]
      cases scanFrom _ more <;> rfl

/-- An integer that is not negative is read from its text. -/
theorem scan_render_int {n : Int64} (hn : 0 ≤ n.toInt) :
    scan (Literal.int n).render.toList =
      .ok [⟨.literal (.int n), 0, byteLength (Literal.int n).render.toList⟩] := by
  have htext : (Literal.int n).render.toList = ofNat n.toInt.natAbs := by
    rw [Literal.render, Literal.renderInt, if_neg (Int.not_lt.2 hn), List.nil_append,
      String.toList_ofList]
  have hrun : IsRun (ofNat n.toInt.natAbs) := isRun_ofNat n.toInt.natAbs
  have hread : readWord? (ofNat n.toInt.natAbs) = some n := by
    rw [readWord?_eq hrun.digits, ← toNat_eq_decimalValue, toNat_ofNat, toWord?_eq_some_iff]
    exact (Int.natAbs_of_nonneg hn).symm
  have hscan := scan_digits (.here 0) hrun EndsExpr.nil.number
  rw [hread, List.nil_append, List.append_nil, List.nil_append] at hscan
  rw [htext, hscan, scanFrom]
  rfl

/-- **Integer constants are exact.** Where a token begins with a run of digits, however long it is
and whatever zeros it begins with, and neither a digit nor a point and a digit follow, the token is
the decimal value of the run if that is a word, and the run is rejected as a whole if it is none. A
machine that has only words reads the same. So each integer among the tokens of a text, or in a
lambda that is read from it, is the decimal value of a run of digits there, and not negative. And
each integer that is not negative is the one token of its text. -/
theorem integer_constants_exact :
    (∀ front digits more before, ScannedBefore (digits ++ more) 0 front before → IsRun digits →
      EndsNumber more →
        (decimalValue digits ≤ 9223372036854775807 → ∃ n : Int64,
          n.toInt = decimalValue digits ∧ readWord? digits = some n ∧
            scan (front ++ (digits ++ more)) =
              (scanFrom (byteLength (front ++ digits)) more).map fun later =>
                before ++ ⟨.literal (.int n), byteLength front, byteLength (front ++ digits)⟩ ::
                  later) ∧
        (9223372036854775807 < decimalValue digits → readWord? digits = none ∧
          scan (front ++ (digits ++ more)) = .error ⟨byteLength front, digits⟩)) ∧
    (∀ cs placed, scan cs = .ok placed → ∀ p ∈ placed, ∀ n, p.token = .literal (.int n) →
      0 ≤ n.toInt ∧ IsIntegerAt cs p.start p.stop n) ∧
    (∀ source l, Lambda.ofText source = .ok l → ∀ n, l.body.Holds (.int n) →
      0 ≤ n.toInt ∧ ∃ start stop, IsIntegerAt source.toList start stop n) ∧
    ∀ n : Int64, 0 ≤ n.toInt → scan (Literal.int n).render.toList =
      .ok [⟨.literal (.int n), 0, byteLength (Literal.int n).render.toList⟩] := by
  refine ⟨fun front digits more before hbefore hrun hends => ⟨fun hle => ?_, fun hlt => ?_⟩,
    fun cs placed hscan p hp n hn => ?_, fun source l hread n hholds => ?_,
    fun n hn => scan_render_int hn⟩
  · obtain ⟨n, hword⟩ := Option.ne_none_iff_exists'.1
      (mt toWord?_eq_none_iff.1 (Nat.not_lt.2 hle))
    have hread := (readWord?_eq hrun.digits).trans hword
    refine ⟨n, toWord?_eq_some_iff.1 hword, hread, ?_⟩
    rw [scan_digits hbefore hrun hends, hread]
  · have hread := (readWord?_eq hrun.digits).trans (toWord?_eq_none_iff.2 hlt)
    refine ⟨hread, ?_⟩
    rw [scan_digits hbefore hrun hends, hread]
  · have hinteger := isIntegerAt_of_scan hscan hp hn
    exact ⟨hinteger.nonneg, hinteger⟩
  · obtain ⟨placed, hscan, p, hp, hn⟩ := Lambda.exists_token_of_holds hread hholds
    have hinteger := isIntegerAt_of_scan hscan hp hn
    exact ⟨hinteger.nonneg, p.start, p.stop, hinteger⟩

/-- Zeros in front do not count, and a point before a name does not make a fraction. The number
behind the largest integer is rejected, also where a sign stands before it. -/
theorem largest_and_padded_integers :
    (ScannedBefore ("009223372036854775807".toList ++ ".a".toList) 0 ['-']
        [⟨.symbol .minus, 0, 1⟩] ∧
      IsRun "009223372036854775807".toList ∧ EndsNumber ".a".toList ∧
      decimalValue "009223372036854775807".toList ≤ 9223372036854775807 ∧
      scan "-009223372036854775807.a".toList = .ok [⟨.symbol .minus, 0, 1⟩,
        ⟨.literal (.int Int64.maxValue), 1, 22⟩, ⟨.symbol .dot, 22, 23⟩, ⟨.ident "a", 23, 24⟩]) ∧
    (ScannedBefore ("9223372036854775808".toList ++ []) 0 ['-'] [⟨.symbol .minus, 0, 1⟩] ∧
      IsRun "9223372036854775808".toList ∧ EndsNumber [] ∧
      9223372036854775807 < decimalValue "9223372036854775808".toList ∧
      scan "-9223372036854775808".toList = .error ⟨1, "9223372036854775808".toList⟩) ∧
    (scan "7 7.a".toList = .ok [⟨.literal (.int 7), 0, 1⟩, ⟨.literal (.int 7), 2, 3⟩,
        ⟨.symbol .dot, 3, 4⟩, ⟨.ident "a", 4, 5⟩] ∧ IsIntegerAt "7 7.a".toList 2 3 7) ∧
    (∃ l, Lambda.ofText "|x| x == 007" = .ok l ∧ l.body.Holds (.int 7) ∧
      ∃ start stop, IsIntegerAt "|x| x == 007".toList start stop 7) ∧
    0 ≤ Int64.maxValue.toInt ∧ scan (Literal.int Int64.maxValue).render.toList =
      .ok [⟨.literal (.int Int64.maxValue), 0, 19⟩] := by
  obtain ⟨hdigits, hscanned, hread, hrendered⟩ := integer_constants_exact
  have hpadded : ScannedBefore ("009223372036854775807".toList ++ ".a".toList) 0 ['-']
      [⟨.symbol .minus, 0, 1⟩] := @ScannedBefore.piece _ 0 '-' [] [] _ _ rfl rfl (.here 1)
  have hlarge : ScannedBefore ("9223372036854775808".toList ++ []) 0 ['-']
      [⟨.symbol .minus, 0, 1⟩] := @ScannedBefore.piece _ 0 '-' [] [] _ _ rfl rfl (.here 1)
  have hpaddedRun : IsRun "009223372036854775807".toList :=
    ⟨List.cons_ne_nil _ _, List.all_eq_true.1 rfl⟩
  have hlargeRun : IsRun "9223372036854775808".toList :=
    ⟨List.cons_ne_nil _ _, List.all_eq_true.1 rfl⟩
  have hname : IsName "a" := by decide +kernel
  have hmember : EndsNumber ".a".toList := (EndsExpr.dot hname []).number
  have hle : decimalValue "009223372036854775807".toList ≤ 9223372036854775807 := by decide
  have hlt : 9223372036854775807 < decimalValue "9223372036854775808".toList := by decide
  obtain ⟨n, hn, -, hscan⟩ := (hdigits _ _ _ _ hpadded hpaddedRun hmember).1 hle
  obtain rfl : n = Int64.maxValue := Int64.toInt_inj.1 hn
  have hscan : scan "-009223372036854775807.a".toList = (scanFrom 22 ".a".toList).map fun later =>
      [⟨.symbol .minus, 0, 1⟩] ++ ⟨.literal (.int Int64.maxValue), 1, 22⟩ :: later := hscan
  have hrest : scanFrom 22 ".a".toList = .ok [⟨.symbol .dot, 22, 23⟩, ⟨.ident "a", 23, 24⟩] := by
    decide +kernel
  rw [hrest] at hscan
  have hrejected := ((hdigits _ _ _ _ hlarge hlargeRun EndsExpr.nil.number).2 hlt).2
  have hsevens : scan "7 7.a".toList = .ok [⟨.literal (.int 7), 0, 1⟩, ⟨.literal (.int 7), 2, 3⟩,
      ⟨.symbol .dot, 3, 4⟩, ⟨.ident "a", 4, 5⟩] := by
    decide +kernel
  have hsecond := (hscanned _ _ hsevens ⟨.literal (.int 7), 2, 3⟩ (by simp) 7 rfl).2
  have hlambda : Lambda.ofText "|x| x == 007" =
      .ok ⟨"x", .binary .eq (.parameter "x") (.constant (.int 7))⟩ :=
    Lambda.ofText_eq_ok_iff.2 ⟨[.symbol .pipe, .ident "x", .symbol .pipe, .ident "x",
      .symbol .equals, .literal (.int 7)], by decide +kernel, by cbv⟩
  have hholds : (Expr.binary .eq (.parameter "x") (.constant (.int 7))).Holds (.int 7) :=
    .right .constant
  have hmax : 0 ≤ Int64.maxValue.toInt := by decide
  have hrender := hrendered _ hmax
  rw [show byteLength (Literal.int Int64.maxValue).render.toList = 19 by decide +kernel] at hrender
  exact ⟨⟨hpadded, hpaddedRun, hmember, hle, hscan⟩,
    ⟨hlarge, hlargeRun, EndsExpr.nil.number, hlt, hrejected⟩, ⟨hsevens, hsecond⟩,
    ⟨_, hlambda, hholds, (hread _ _ hlambda 7 hholds).2⟩, hmax, hrender⟩

end MemberAccess
