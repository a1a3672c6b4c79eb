import MemberAccess.Proofs.Source.Locality

/-!
# How deep types are read

The readers of types may go down a number of levels, which is that of the tokens that are still to
be read. It makes no difference if it is more: each level takes a token at least, either in front of
what is read below, or as the brackets around it. So two layers that may go as deep as there are
tokens read the same.

With that a type is read alike whatever follows it, although the number of levels counts what
follows as well.

## Main definitions

* `Agrees`: what one reader reads of little code, another reads.
* `CodeLayer.Agree`: layers that agree on little code.

## Main results

* `Agrees.bindAdvances`, `Agrees.inside`: behind a token, and inside brackets, there is less code.
* `CodeLayer.agree_ofDepth`: layers that go as deep as there are tokens agree.
* `Confined.typeText`: types are read alike whatever follows them.
-/

namespace MemberAccess.Source

-- The size that is counted for an instance doubles with each step of a chain of choices.
set_option synthInstance.maxSize 100000000

variable {α β : Type}

/-! ### Counting tokens -/

/-- Every token counts. -/
theorem TokenTree.size_pos (t : TokenTree) : 0 < t.size := by
  cases t with
  | group b content => rw [TokenTree.size]; exact Nat.succ_pos _
  | word | lifetime | literal | mark => exact Nat.one_pos

/-- The sizes of tokens after one another add up. -/
theorem size_append (ts us : List TokenTree) : size (ts ++ us) = size ts + size us := by
  induction ts with
  | nil => rw [List.nil_append, size, Nat.zero_add]
  | cons t ts ih => rw [List.cons_append, size, size, ih, Nat.add_assoc]

/-- An end of code has no more tokens. -/
theorem size_le_of_suffix {ts us : List TokenTree} (h : us <:+ ts) : size us ≤ size ts := by
  obtain ⟨w, rfl⟩ := h
  rw [size_append]
  exact Nat.le_add_left _ _

/-- A shorter end of code has fewer tokens. -/
theorem size_lt_of_suffix {ts us : List TokenTree} (h : us <:+ ts)
    (hlength : us.length < ts.length) : size us < size ts := by
  obtain ⟨w, rfl⟩ := h
  cases w with
  | nil => exact absurd hlength (Nat.lt_irrefl _)
  | cons t w =>
      have hpos := t.size_pos
      rw [List.cons_append, size, size_append]
      omega

/-! ### Readers that agree -/

/-- **What one reader reads of little code, another reads:** of fewer than `n` tokens, or of `n` as
well with `deep`. -/
class Agrees (n : Nat) (deep : Bool) (r r' : CodeReader α) : Prop where
  read : ∀ {c : Cursor} {x : α × Cursor}, size c.rest < n + deep.toNat → r c = .ok x → r' c = .ok x

namespace Agrees

variable {n : Nat} {deep : Bool}

instance refl (r : CodeReader α) : Agrees n deep r r where
  read _ h := h

instance bind (r r' : CodeReader α) (f f' : α → CodeReader β) [Forward r] [Agrees n deep r r']
    [∀ a, Agrees n deep (f a) (f' a)] : Agrees n deep (r >>= f) (r' >>= f') where
  read {c x} hsize h := by
    obtain ⟨a, e, hr, hf⟩ := bind_eq_ok_iff.1 h
    have hrest := size_le_of_suffix (Forward.leads hr).rest
    exact bind_eq_ok_iff.2 ⟨a, e, read hsize hr, read (Nat.lt_of_le_of_lt hrest hsize) hf⟩

variable {r r' : CodeReader α} {f f' : α → CodeReader β} in
/-- Readers that agree may be gone on with by readers that agree. -/
theorem seq [Forward r] (hr : Agrees n deep r r') (h : ∀ a, Agrees n deep (f a) (f' a)) :
    Agrees n deep (r >>= f) (r' >>= f') :=
  bind r r' f f'

/-- **Behind a token there is less code.** -/
instance bindAdvances (r r' : CodeReader α) (f f' : α → CodeReader β) [Forward r] [Advances r]
    [Agrees n deep r r'] [∀ a, Agrees n false (f a) (f' a)] :
    Agrees n deep (r >>= f) (r' >>= f') where
  read {c x} hsize h := by
    obtain ⟨a, e, hr, hf⟩ := bind_eq_ok_iff.1 h
    have hrest := size_lt_of_suffix (Forward.leads hr).rest (Advances.length_lt hr)
    have hdeep := deep.toNat_le
    have hless : size e.rest < n + false.toNat := by
      rw [Bool.toNat_false]
      omega
    exact bind_eq_ok_iff.2 ⟨a, e, read hsize hr, read hless hf⟩

instance ite (p : Prop) [Decidable p] (r r' s s' : CodeReader α) [Agrees n deep r r']
    [Agrees n deep s s'] : Agrees n deep (if p then r else s) (if p then r' else s') := by
  split <;> infer_instance

instance repeated (step step' : CodeReader (α × Bool)) [Forward step]
    [Agrees n deep step step'] :
    Agrees n deep (CodeReader.repeated step) (CodeReader.repeated step') where
  read {c x} hsize h := by
    fun_induction CodeReader.repeated step c generalizing x with
    | case1 | case2 => cases h
    | case3 c a again after hstep hgo more last hmore ih =>
        cases h
        have hrest := size_le_of_suffix (Forward.leads hstep).rest
        obtain ⟨rfl, hlength⟩ := hgo
        exact CodeReader.repeated_cons (read hsize hstep) hlength
          (ih (Nat.lt_of_le_of_lt hrest hsize) hmore)
    | case4 c a again after hstep hstop =>
        cases h
        have hstep' : step' c = .ok ((a, again), after) := read hsize hstep
        rw [CodeReader.repeated, hstep']
        exact if_neg hstop

instance gathered (step step' : CodeReader (List TokenTree × Bool)) [Forward step]
    [Agrees n deep step step'] :
    Agrees n deep (CodeReader.gathered step) (CodeReader.gathered step') := by
  unfold CodeReader.gathered; infer_instance

/-- **Inside brackets there is less code.** -/
instance inside (b : Bracket) (r r' : CodeReader α) [Agrees n false r r'] :
    Agrees n deep (CodeReader.inside b r) (CodeReader.inside b r') where
  read {c x} hsize h := by
    obtain ⟨ts, leftOver⟩ := c
    rw [CodeReader.inside, CodeReader.ahead_bind] at h ⊢
    rcases ts with _ | ⟨_ | _ | _ | _ | ⟨d, content⟩, ts⟩
    case cons.group =>
      dsimp only at h ⊢
      split at h
      · rename_i hd
        rw [if_pos hd]
        rw [CodeReader.goTo_bind] at h ⊢
        obtain ⟨a, e, hr, h⟩ := bind_eq_ok_iff.1 h
        have hdeep := deep.toNat_le
        have hcontent : size content < n + false.toNat := by
          rw [size, TokenTree.size] at hsize
          rw [Bool.toNat_false]
          omega
        exact bind_eq_ok_iff.2 ⟨a, e, read hcontent hr, h⟩
      · cases h
    all_goals cases h

instance wrapped (b : Bracket) (r r' : CodeReader (List TokenTree)) [Forward r]
    [Agrees n false r r'] : Agrees n deep (CodeReader.wrapped b r) (CodeReader.wrapped b r') := by
  unfold CodeReader.wrapped; infer_instance

instance commaSeparated (r r' : CodeReader (List TokenTree)) [Forward r] [Agrees n deep r r'] :
    Agrees n deep (CodeReader.commaSeparated r) (CodeReader.commaSeparated r') := by
  unfold CodeReader.commaSeparated; infer_instance

end Agrees

/-! ### Layers that agree -/

/-- **What one layer reads of fewer than `n` tokens, another reads.** -/
class CodeLayer.Agree (n : Nat) (l l' : CodeLayer) : Prop where
  type : ∀ plus, Agrees n false (l.type plus) (l'.type plus)
  bound : ∀ captures constant,
    Agrees n false (l.bound captures constant) (l'.bound captures constant)
  expression : Agrees n false l.expression l'.expression

attribute [instance] CodeLayer.Agree.type CodeLayer.Agree.bound CodeLayer.Agree.expression

namespace Agrees

variable {n : Nat} {deep : Bool} (below below' : CodeLayer) [below.IsForward]
  [CodeLayer.Agree n below below']

/-! ### Paths -/

instance boundsUntil (stops : List String) :
    Agrees n false (CodeReader.boundsUntil stops below) (CodeReader.boundsUntil stops below') := by
  unfold CodeReader.boundsUntil; infer_instance

instance argument : Agrees n false (CodeReader.argument below) (CodeReader.argument below') := by
  unfold CodeReader.argument; dsimp only; infer_instance

instance arguments : Agrees n deep (CodeReader.arguments below) (CodeReader.arguments below') := by
  unfold CodeReader.arguments; infer_instance

instance pathSegment (inExpression : Bool) : Agrees n deep
    (CodeReader.pathSegment inExpression below) (CodeReader.pathSegment inExpression below') := by
  unfold CodeReader.pathSegment; infer_instance

instance pathSegments (inExpression : Bool) : Agrees n deep
    (CodeReader.pathSegments inExpression below) (CodeReader.pathSegments inExpression below') := by
  unfold CodeReader.pathSegments; infer_instance

instance path (inExpression : Bool) : Agrees n deep
    (CodeReader.path inExpression below) (CodeReader.path inExpression below') := by
  unfold CodeReader.path; infer_instance

instance qualifiedPath (inExpression : Bool) : Agrees n deep
    (CodeReader.qualifiedPath inExpression below)
    (CodeReader.qualifiedPath inExpression below') := by
  unfold CodeReader.qualifiedPath; dsimp only; infer_instance

/-! ### Expressions -/

instance elements : Agrees n false (CodeReader.elements below) (CodeReader.elements below') := by
  unfold CodeReader.elements; infer_instance

instance pathExpression :
    Agrees n deep (CodeReader.pathExpression below) (CodeReader.pathExpression below') := by
  unfold CodeReader.pathExpression; infer_instance

instance atom : Agrees n deep (CodeReader.atom below) (CodeReader.atom below') := by
  unfold CodeReader.atom; infer_instance

instance member : Agrees n deep (CodeReader.member below) (CodeReader.member below') := by
  unfold CodeReader.member
  refine seq inferInstance fun ts => ?_
  split <;> infer_instance

instance applications :
    Agrees n deep (CodeReader.applications below) (CodeReader.applications below') := by
  unfold CodeReader.applications; infer_instance

instance operand : Agrees n deep (CodeReader.operand below) (CodeReader.operand below') := by
  unfold CodeReader.operand; infer_instance

instance expression :
    Agrees n deep (CodeReader.expression below) (CodeReader.expression below') := by
  unfold CodeReader.expression; dsimp only; infer_instance

/-! ### Types -/

instance parameter : Agrees n false (CodeReader.parameter below) (CodeReader.parameter below') := by
  unfold CodeReader.parameter; dsimp only; infer_instance

instance binder : Agrees n deep (CodeReader.binder below) (CodeReader.binder below') := by
  unfold CodeReader.binder; dsimp only; infer_instance

instance binderIf : Agrees n deep (CodeReader.binderIf below) (CodeReader.binderIf below') := by
  unfold CodeReader.binderIf; infer_instance

instance result : Agrees n deep (CodeReader.result below) (CodeReader.result below') := by
  unfold CodeReader.result; infer_instance

instance traitPath : Agrees n deep (CodeReader.traitPath below) (CodeReader.traitPath below') := by
  unfold CodeReader.traitPath; dsimp only; infer_instance

instance trait (constant : Bool) :
    Agrees n deep (CodeReader.trait constant below) (CodeReader.trait constant below') := by
  unfold CodeReader.trait; dsimp only; infer_instance

instance bound (captures constant : Bool) : Agrees n deep
    (CodeReader.bound below captures constant) (CodeReader.bound below' captures constant) := by
  unfold CodeReader.bound; dsimp only; infer_instance

instance bounds (plus captures constant : Bool) : Agrees n deep
    (CodeReader.bounds below plus captures constant)
    (CodeReader.bounds below' plus captures constant) := by
  unfold CodeReader.bounds; dsimp only; infer_instance

instance objectBounds (plus : Bool) :
    Agrees n deep (CodeReader.objectBounds below plus) (CodeReader.objectBounds below' plus) := by
  unfold CodeReader.objectBounds; infer_instance

instance furtherBounds :
    Agrees n deep (CodeReader.furtherBounds below) (CodeReader.furtherBounds below') := by
  unfold CodeReader.furtherBounds; infer_instance

instance parameters :
    Agrees n false (CodeReader.parameters below) (CodeReader.parameters below') := by
  unfold CodeReader.parameters; dsimp only; infer_instance

instance function : Agrees n deep (CodeReader.function below) (CodeReader.function below') := by
  unfold CodeReader.function
  refine seq inferInstance fun front => seq inferInstance fun foreign =>
    seq inferInstance fun ts => ?_
  dsimp only
  split <;> infer_instance

instance tuple : Agrees n false (CodeReader.tuple below) (CodeReader.tuple below') := by
  unfold CodeReader.tuple; dsimp only; infer_instance

instance bracketed (plus : Bool) :
    Agrees n deep (CodeReader.bracketed below plus) (CodeReader.bracketed below' plus) := by
  unfold CodeReader.bracketed; dsimp only; infer_instance

instance ofPath (lifetimes : List TokenTree) (plus : Bool) : Agrees n deep
    (CodeReader.ofPath below lifetimes plus) (CodeReader.ofPath below' lifetimes plus) := by
  unfold CodeReader.ofPath; dsimp only; infer_instance

instance sequence : Agrees n false (CodeReader.sequence below) (CodeReader.sequence below') := by
  unfold CodeReader.sequence; dsimp only; infer_instance

instance pointer : Agrees n deep (CodeReader.pointer below) (CodeReader.pointer below') := by
  unfold CodeReader.pointer; dsimp only; infer_instance

instance reference : Agrees n deep (CodeReader.reference below) (CodeReader.reference below') := by
  unfold CodeReader.reference; dsimp only; infer_instance

instance object (plus : Bool) :
    Agrees n deep (CodeReader.object below plus) (CodeReader.object below' plus) := by
  unfold CodeReader.object; dsimp only; infer_instance

instance choice (plus : Bool) :
    Agrees n deep (CodeReader.choice below plus) (CodeReader.choice below' plus) := by
  unfold CodeReader.choice; infer_instance

instance type (plus : Bool) :
    Agrees n deep (CodeReader.type below plus) (CodeReader.type below' plus) := by
  unfold CodeReader.type; dsimp only; infer_instance

end Agrees

/-! ### Layers by their depth -/

namespace CodeLayer

/-- Of no code nothing is read, so all layers agree. -/
theorem agree_zero (l l' : CodeLayer) : Agree 0 l l' where
  type _ := ⟨fun h => absurd h (Nat.not_lt_zero _)⟩
  bound _ _ := ⟨fun h => absurd h (Nat.not_lt_zero _)⟩
  expression := ⟨fun h => absurd h (Nat.not_lt_zero _)⟩

/-- **Layers over layers that agree** agree on one token more. -/
theorem Agree.next {n : Nat} {l l' : CodeLayer} [l.IsForward] (h : Agree n l l') :
    Agree (n + 1) l.next l'.next where
  type plus := by
    have htype : Agrees n true (l.next.type plus) (l'.next.type plus) := Agrees.type l l' plus
    exact ⟨htype.read⟩
  bound captures constant := by
    have hbound :
        Agrees n true (l.next.bound captures constant) (l'.next.bound captures constant) :=
      Agrees.bound l l' captures constant
    exact ⟨hbound.read⟩
  expression := by
    have hexpression : Agrees n true l.next.expression l'.next.expression := Agrees.expression l l'
    exact ⟨hexpression.read⟩

/-- **Layers that go as deep as there are tokens agree.** -/
theorem agree_ofDepth {n i j : Nat} (hi : n ≤ i + 1) (hj : n ≤ j + 1) :
    Agree n (ofDepth i) (ofDepth j) := by
  induction n generalizing i j with
  | zero => exact agree_zero _ _
  | succ n ih =>
      match i, j with
      | i + 1, j + 1 => exact (ih (Nat.le_of_succ_le_succ hi) (Nat.le_of_succ_le_succ hj)).next
      | 0, 0 | 0, j + 1 | i + 1, 0 =>
          -- The lowest layer reads what needs nothing below it.
          obtain rfl : n = 0 := by omega
          exact (agree_zero _ _).next

/-- **A type is read alike by all layers that go as deep as there are tokens.** -/
theorem type_ofDepth {i j : Nat} {plus : Bool} {c : Cursor} {x : TypeText × Cursor}
    (hi : size c.rest ≤ i) (hj : size c.rest ≤ j) (h : (ofDepth i).type plus c = .ok x) :
    (ofDepth j).type plus c = .ok x := by
  have hagree : Agree (size c.rest + 1) (ofDepth i) (ofDepth j) :=
    agree_ofDepth (Nat.succ_le_succ hi) (Nat.succ_le_succ hj)
  exact (hagree.type plus).read (Nat.lt_succ_self _) h

end CodeLayer

/-- What is read of a type, as the layer that goes as deep as there are tokens reads it. -/
theorem CodeReader.typeText_eq_ok_iff {c d : Cursor} {text : String} :
    typeText c = .ok (text, d) ↔ ∃ t, (CodeLayer.ofDepth (size c.rest)).type true c = .ok (t, d) ∧
      render t.tokens = text := by
  rw [typeText, ahead_bind, bind_eq_ok_iff]
  constructor
  · rintro ⟨t, e, ht, h⟩
    cases h
    exact ⟨t, ht, rfl⟩
  · rintro ⟨t, ht, rfl⟩
    exact ⟨t, d, ht, rfl⟩

/-- **Types are read alike whatever follows them.** The layer that is as deep as the longer code
reads both. -/
instance Confined.typeText {inner : Bool} : Confined inner CodeReader.typeText where
  swap {u v k k' leftOver after text} hk hk' hv h := by
    obtain ⟨t, ht, rfl⟩ := CodeReader.typeText_eq_ok_iff.1 h
    refine CodeReader.typeText_eq_ok_iff.2 ⟨t, ?_, rfl⟩
    rcases Nat.le_total (size (u ++ k)) (size (u ++ k')) with hle | hle
    · exact swap hk hk' hv (CodeLayer.type_ofDepth (Nat.le_refl _) hle ht)
    · exact CodeLayer.type_ofDepth hle (Nat.le_refl _) (swap hk hk' hv ht)

end MemberAccess.Source
