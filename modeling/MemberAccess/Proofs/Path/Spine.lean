import MemberAccess.Proofs.Accessor.Compilation
import MemberAccess.Proofs.Path.Outcome

/-!
# The spine of a body

A member path is read off the spine of a lambda's body: from the outermost node through the targets
of member accesses and the operands of casts, to the first node that is neither. That node, the tip,
and the names of the accesses decide the outcome, and nothing else does. So casts can be put on the
spine and taken off it without a change to the path, and what they are written with does not matter.

A path that is found has the names of the spine, because every member of a table is found under its
own name.

## Main definitions

* `Expr.Spine`: the names on a spine and its tip.
* `SpineOutcome`: what the names and the tip amount to.
* `Expr.UpToCasts`: expressions that differ in the casts on their spines.

## Main results

* `Expr.exists_spine`, `Expr.Spine.unique`: every expression has one spine.
* `Expr.UpToCasts.exists_spine`: casts are not seen on it.
* `PathSpec.spine_decides`: the names of a specification, its path in every registry, and the names
  of the path.
-/

namespace MemberAccess

/-! ### Spines -/

/-- **The spine of an expression:** the names of its member accesses, innermost first, and its tip,
the first node that is neither a member access nor a cast. -/
inductive Expr.Spine : Expr → List String → Expr → Prop
  | tip {e : Expr} (hmember : ∀ target name, e ≠ .member target name)
      (hcast : ∀ operand type, e ≠ .cast operand type) : Spine e [] e
  | member {target tip : Expr} {names : List String} (name : String)
      (h : Spine target names tip) : Spine (.member target name) (names ++ [name]) tip
  | cast {operand tip : Expr} {names : List String} (type : String)
      (h : Spine operand names tip) : Spine (.cast operand type) names tip

/-- **What a spine amounts to** in a lambda over the parameter `param`: the path of its names, if
there are any and the tip is the parameter. -/
inductive SpineOutcome (param : String) :
    List String → Expr → Except InvalidPath (List String) → Prop
  | path {names : List String} (h : names ≠ []) :
      SpineOutcome param names (.parameter param) (.ok names)
  | empty : SpineOutcome param [] (.parameter param) (.error .empty)
  | unbound {names : List String} {p : String} (h : p ≠ param) :
      SpineOutcome param names (.parameter p) (.error (.unboundParameter p))
  | unsupported {names : List String} {tip : Expr} (h : ∀ p, tip ≠ .parameter p) :
      SpineOutcome param names tip (.error (.unsupportedNode tip.kind))

namespace Expr

/-- The chain of an expression is its spine. -/
theorem Spine.chain_eq {e tip : Expr} {names : List String} (h : e.Spine names tip) :
    e.chain = (names, tip) := by
  induction h with
  | tip hmember hcast =>
      rename_i e
      cases e with
      | member target name => exact absurd rfl (hmember target name)
      | cast operand type => exact absurd rfl (hcast operand type)
      | _ => rfl
  | member name _ ih => rw [chain, ih]
  | cast type _ ih => rw [chain, ih]

/-- **An expression has one spine at most.** -/
theorem Spine.unique {e tip tip' : Expr} {names names' : List String} (h : e.Spine names tip)
    (h' : e.Spine names' tip') : names' = names ∧ tip' = tip :=
  Prod.mk.inj (h'.chain_eq.symm.trans h.chain_eq)

/-- **Every expression has a spine.** -/
theorem exists_spine : (e : Expr) → ∃ names tip, e.Spine names tip
  | member target name =>
    have ⟨_, _, h⟩ := exists_spine target
    ⟨_, _, .member name h⟩
  | cast operand type =>
    have ⟨_, _, h⟩ := exists_spine operand
    ⟨_, _, .cast type h⟩
  | parameter _ | free _ | constant _ | call _ _ | method _ _ _ | index _ _ | unary _ _
  | binary _ _ _ => ⟨[], _, .tip (fun _ _ h => nomatch h) fun _ _ h => nomatch h⟩

/-! ### Casts -/

/-- **Expressions that differ in the casts on their spines.** A cast may stand anywhere on either
spine, to any type. -/
inductive UpToCasts : Expr → Expr → Prop
  | refl (e : Expr) : UpToCasts e e
  | member {e f : Expr} (name : String) (h : UpToCasts e f) :
      UpToCasts (.member e name) (.member f name)
  | castLeft {e f : Expr} (type : String) (h : UpToCasts e f) : UpToCasts (.cast e type) f
  | castRight {e f : Expr} (type : String) (h : UpToCasts e f) : UpToCasts e (.cast f type)

/-- **Casts are not seen on a spine.** -/
theorem UpToCasts.exists_spine {e f : Expr} (h : e.UpToCasts f) :
    ∃ names tip, e.Spine names tip ∧ f.Spine names tip := by
  induction h with
  | refl e =>
      obtain ⟨names, tip, h⟩ := Expr.exists_spine e
      exact ⟨names, tip, h, h⟩
  | member name _ ih =>
      obtain ⟨names, tip, he, hf⟩ := ih
      exact ⟨_, tip, .member name he, .member name hf⟩
  | castLeft type _ ih =>
      obtain ⟨names, tip, he, hf⟩ := ih
      exact ⟨names, tip, .cast type he, hf⟩
  | castRight type _ ih =>
      obtain ⟨names, tip, he, hf⟩ := ih
      exact ⟨names, tip, he, .cast type hf⟩

end Expr

/-! ### Names -/

/-- **The names of a lambda** are what its spine amounts to. -/
theorem Lambda.spineOutcome_memberNames {l : Lambda} {names : List String} {tip : Expr}
    (h : l.body.Spine names tip) : SpineOutcome l.param names tip l.memberNames := by
  have hchain := h.chain_eq
  cases tip with
  | parameter p =>
      simp only [memberNames, hchain]
      by_cases hp : p = l.param
      · subst hp
        by_cases hnames : names = []
        · subst hnames
          simp only [ne_eq, not_true_eq_false, if_false, if_true]
          exact .empty
        · simp only [ne_eq, not_true_eq_false, hnames, if_false]
          exact .path hnames
      · simp only [ne_eq, hp, not_false_eq_true, if_true]
        exact .unbound hp
  | _ =>
      simp only [memberNames, hchain]
      exact .unsupported fun _ h => by cases h

/-- Lambdas over one parameter whose bodies differ in the casts on their spines have the same
names. -/
theorem Lambda.memberNames_of_upToCasts {l l' : Lambda} (hparam : l'.param = l.param)
    (h : l.body.UpToCasts l'.body) : l'.memberNames = l.memberNames := by
  obtain ⟨names, tip, hl, hl'⟩ := h.exists_spine
  rw [memberNames, memberNames, hparam, hl.chain_eq, hl'.chain_eq]

/-- The names of a specification are those of its lambda. -/
theorem PathSpec.memberNames_eq {spec : PathSpec} {l : Lambda} (h : spec.lambda = .ok l) :
    spec.memberNames = l.memberNames := by
  rw [memberNames, h]
  rfl

/-! ### Paths -/

section

variable {U : Universe} {r : Registry U}

/-- Names behind points, put together from the front, are joined by points. -/
theorem foldl_point_eq (name : String) (more : List String) :
    more.foldl (fun text next => text ++ ("." ++ next)) name = joinNames (name :: more) := by
  rw [joinNames]
  induction more generalizing name with
  | nil => rw [String.intercalate_singleton, List.foldl_nil]
  | cons next more ih =>
      rw [List.foldl_cons, ih]
      cases more with
      | nil =>
          rw [String.intercalate_cons_cons, String.intercalate_singleton,
            String.intercalate_singleton, String.append_assoc]
      | cons later more =>
          simp only [String.intercalate_cons_cons, String.append_assoc]

/-- **The text of a path is its full name.** -/
theorem Path.text_eq_fullName (p : Path U) : p.text = p.fullName := by
  rw [text, fullName]
  cases p.names with
  | nil => rfl
  | cons name more => exact foldl_point_eq name more

/-- Specifications of the same names are parsed alike, in every type. -/
theorem Registry.parse_congr {spec spec' : PathSpec} (h : spec'.memberNames = spec.memberNames)
    (root : TypeInfo U) : r.parse root spec' = r.parse root spec := by
  rw [parse, parse, h]

/-- **A path that is found has the names of its specification.** -/
theorem Registry.memberNames_of_parse (htables : ∀ t, (r.info t).Tabulated) {root : TypeInfo U}
    (hroot : root.Tabulated) {spec : PathSpec} {p : Path U} {log : List LogRecord}
    (h : r.parse root spec = some ⟨.ok p, log⟩) : spec.memberNames = .ok p.names := by
  obtain ⟨names, hnames, -, hresolves⟩ := resolves_of_parse h
  rw [hnames, Path.names, hresolves.names_eq htables hroot]

end

/-- **The spine of a body decides a path.** The body of every lambda has one spine, and the names of
a specification are what that amounts to, whatever lies outside of it. So specifications whose
bodies differ in the casts on their spines have the same names and the same full name, and are
parsed alike in every type of every registry. Where members are found under their own names, a path
that is parsed has the names of its specification, and its text is the full name of both. -/
theorem PathSpec.spine_decides {spec : PathSpec} {l : Lambda} (hl : spec.lambda = .ok l) :
    (∃ names tip, l.body.Spine names tip ∧
        (∀ names' tip', l.body.Spine names' tip' → names' = names ∧ tip' = tip) ∧
        SpineOutcome l.param names tip spec.memberNames) ∧
      (∀ spec' l', spec'.lambda = .ok l' → l'.param = l.param → l.body.UpToCasts l'.body →
        spec'.memberNames = spec.memberNames ∧ spec'.fullName = spec.fullName ∧
          ∀ {U : Universe} (r : Registry U) root, r.parse root spec' = r.parse root spec) ∧
      ∀ {U : Universe} (r : Registry U), (∀ t, (r.info t).Tabulated) → ∀ root : TypeInfo U,
        root.Tabulated → ∀ p log, r.parse root spec = some ⟨.ok p, log⟩ →
          spec.memberNames = .ok p.names ∧ spec.fullName = .ok p.fullName ∧
            p.text = p.fullName := by
  have hspec := memberNames_eq hl
  refine ⟨?_, fun spec' l' hl' hparam hcasts => ?_, fun r htables root hroot p log hparse => ?_⟩
  · obtain ⟨names, tip, hspine⟩ := l.body.exists_spine
    refine ⟨names, tip, hspine, fun _ _ h => hspine.unique h, ?_⟩
    rw [hspec]
    exact Lambda.spineOutcome_memberNames hspine
  · have hnames : spec'.memberNames = spec.memberNames := by
      rw [memberNames_eq hl', hspec, Lambda.memberNames_of_upToCasts hparam hcasts]
    exact ⟨hnames, by rw [fullName, fullName, hnames], fun r => Registry.parse_congr hnames⟩
  · have hnames := Registry.memberNames_of_parse htables hroot hparse
    refine ⟨hnames, ?_, p.text_eq_fullName⟩
    rw [fullName, hnames]
    rfl

/-- In the objects that may be linked to a next one, the count of the next one is named with casts
on the way as it is without: the same names, and the same path. -/
theorem Declarations.linked_spine_decides :
    ∃ l l' : Lambda, (PathSpec.built l).lambda = .ok l ∧ (PathSpec.built l').lambda = .ok l' ∧
      l'.param = l.param ∧ l.body.UpToCasts l'.body ∧ l ≠ l' ∧
      (PathSpec.built l').memberNames = (PathSpec.built l).memberNames ∧
      (∀ t, ((linked.registry []).info t).Tabulated) ∧
      ∃ p log, (linked.registry []).parse ((linked.registry []).info (Ty.declared 0))
          (.built l) = some ⟨.ok p, log⟩ ∧
        (linked.registry []).parse ((linked.registry []).info (Ty.declared 0))
          (.built l') = some ⟨.ok p, log⟩ ∧
        (PathSpec.built l').memberNames = .ok p.names ∧ p.text = p.fullName := by
  let l : Lambda :=
    ⟨"x", .cast (.member (.cast (.member (.parameter "x") "next") "Linked") "count") "i32"⟩
  let l' : Lambda := ⟨"x", .member (.member (.parameter "x") "next") "count"⟩
  have hcasts : l.body.UpToCasts l'.body :=
    .castLeft _ (.member _ (.castLeft _ (.member _ (.refl _))))
  have htables := linked.tabulated_registry []
  have hne : l ≠ l' := by
    intro h
    cases (Lambda.mk.inj h).2
  have htest : ((linked.registry []).parse ((linked.registry []).info (Ty.declared 0))
      (.built l)).any (fun found => found.value.toOption.any fun _ => true) = true := by
    decide +kernel
  obtain ⟨p, log, hparse, -⟩ := Logged.exists_of_any htest
  have hread : (PathSpec.built l).lambda = .ok l := rfl
  obtain ⟨-, halike, hpath⟩ := PathSpec.spine_decides hread
  obtain ⟨hnames, -, hparse'⟩ := halike (.built l') l' rfl rfl hcasts
  obtain ⟨hfound, -, htext⟩ := hpath (linked.registry []) htables _ (htables _) p log hparse
  exact ⟨l, l', rfl, rfl, rfl, hcasts, hne, hnames, htables, p, log, hparse,
    (hparse' _ _).trans hparse, hnames.trans hfound, htext⟩

end MemberAccess
