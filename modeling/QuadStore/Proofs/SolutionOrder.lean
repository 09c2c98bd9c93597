import Mathlib
import QuadStore.Proofs.NumberFilter
import QuadStore.Proofs.Sorted
import QuadStore.Query.Solutions

namespace QuadStore

namespace Binary

variable {f : Format} {x y z : Binary f}

/-- The value of a number in units of its format; a NaN has none, and stands at the bottom. -/
def value : Binary f → WithBot (WithTop Int)
  | .nan => ⊥
  | .infinite negative => if negative then ⊥ else (⊤ : WithTop Int)
  | .finite negative units _ => ((if negative then -(units : Int) else units : Int) : WithTop Int)

theorem lt_iff_value (hx : x.isNaN = false) (hy : y.isNaN = false) : x.lt y = true ↔ x.value < y.value := by
  cases x with
  | nan => cases hx
  | infinite a =>
    cases y with
    | nan => cases hy
    | infinite b => cases a <;> cases b <;> simp [lt, value]
    | finite b n _ => cases a <;> simp [lt, value]
  | finite a m _ =>
    cases y with
    | nan => cases hy
    | infinite b =>
      cases b with
      | true => simp [lt, value]
      | false => exact iff_of_true rfl (WithBot.coe_lt_coe.2 (WithTop.coe_lt_top _))
    | finite b n _ => simp [lt, value]

theorem lt_split (proper : y.isNaN = false) (h : x.lt z = true) : x.lt y = true ∨ y.lt z = true := by
  have hx : x.isNaN = false := by cases x <;> first | rfl | cases h
  have hz : z.isNaN = false := by cases z <;> first | rfl | cases x <;> cases h
  rw [lt_iff_value hx hz] at h
  rw [lt_iff_value hx proper, lt_iff_value proper hz]
  exact (lt_or_ge x.value y.value).imp_right fun above => above.trans_lt h

end Binary

namespace SortKey

variable {a b c : SortKey} {reverse : Bool}

def IsProper : SortKey → Prop
  | number x => x.isNaN = false
  | _ => True

theorem numeric?_eq_some {t : Term} {x : Double} :
    numeric? t = some x ↔ ∃ s kind, t = .literal s kind ∧ Binary.read? s = some (x, []) ∧ x.isNaN = false := by
  constructor
  · intro h
    unfold numeric? at h
    split at h
    · split at h
      · cases h
      · next s kind _ _ notNan read =>
        cases h
        refine ⟨_, _, rfl, read, ?_⟩
        cases x with
        | nan => exact absurd rfl notNan
        | _ => rfl
      · cases h
    · cases h
  · rintro ⟨s, kind, rfl, read, proper⟩
    cases x with
    | nan => cases proper
    | _ => simp only [numeric?, read]

theorem ofRow_proper (name : Text) (b : Binding) : (ofRow name b).IsProper := by
  unfold ofRow ofTerm?
  split
  · trivial
  · split
    · next found => exact (numeric?_eq_some.1 found).choose_spec.choose_spec.2.2
    · trivial

theorem precedes_asymm (h : precedes a b = true) : precedes b a = false := by
  cases a with
  | number x =>
    cases b with
    | number y => exact Binary.lt_asymm h
    | text | unbound => rfl
  | text s =>
    cases b with
    | text t =>
      simp only [precedes, decide_eq_true_eq, decide_eq_false_iff_not] at h ⊢
      exact List.lt_asymm h
    | number | unbound => cases h
  | unbound => cases h

theorem precedes_split (proper : b.IsProper) (bound : b ≠ unbound) (h : precedes a c = true) :
    precedes a b = true ∨ precedes b c = true := by
  cases a with
  | unbound => cases h
  | number x =>
    cases b with
    | unbound => exact absurd rfl bound
    | text u => exact .inl rfl
    | number y =>
      cases c with
      | unbound => cases h
      | text t => exact .inr rfl
      | number z => exact Binary.lt_split proper h
  | text s =>
    cases c with
    | unbound | number => cases h
    | text t =>
      cases b with
      | unbound => exact absurd rfl bound
      | number y => exact .inr rfl
      | text u =>
        simp only [precedes, decide_eq_true_eq] at h ⊢
        by_cases below : s < u
        · exact .inl below
        · exact .inr (List.lt_of_le_of_lt below h)

theorem lt_bound (ha : a ≠ unbound) (hb : b ≠ unbound) :
    lt reverse a b = if reverse then precedes b a else precedes a b := by
  cases a <;> cases b <;> first | rfl | contradiction

theorem lt_number (x y : Double) : lt reverse (number x) (number y) = if reverse then y.lt x else x.lt y := rfl

theorem lt_text (s t : Text) :
    lt reverse (text s) (text t) = if reverse then decide (t < s) else decide (s < t) := rfl

theorem lt_unbound (ha : a ≠ unbound) : lt reverse a unbound = true := by
  cases a <;> first | rfl | contradiction

theorem bound_of_lt (h : lt reverse a b = true) : a ≠ unbound := by
  rintro rfl
  cases h

theorem lt_asymm (h : lt reverse a b = true) : lt reverse b a = false := by
  have ha := bound_of_lt h
  by_cases hb : b = unbound
  · subst hb
    rfl
  · rw [lt_bound ha hb] at h
    rw [lt_bound hb ha]
    cases reverse <;> exact precedes_asymm h

theorem lt_split (proper : b.IsProper) (h : lt reverse a c = true) :
    lt reverse a b = true ∨ lt reverse b c = true := by
  have ha := bound_of_lt h
  by_cases hb : b = unbound
  · subst hb
    exact .inl (lt_unbound ha)
  · by_cases hc : c = unbound
    · subst hc
      exact .inr (lt_unbound hb)
    · rw [lt_bound ha hc] at h
      rw [lt_bound ha hb, lt_bound hb hc]
      cases reverse with
      | false => exact precedes_split proper hb h
      | true => exact (precedes_split proper hb h).symm

end SortKey

namespace Solutions

/-- Whether a row goes before another, which is the comparison of `sortRows`. -/
def before (name : Text) (reverse : Bool) (a b : Binding) : Bool :=
  SortKey.lt reverse (.ofRow name a) (.ofRow name b)

def tied (name : Text) (reverse : Bool) (a b : Binding) : Bool :=
  !before name reverse a b && !before name reverse b a

def isBound (name : Text) (b : Binding) : Bool := (b.get? name).isSome

def number? (name : Text) (b : Binding) : Option Double := (b.get? name).bind SortKey.numeric?

/-- The text of the term that a row binds a variable to, where the term is not a number. -/
def text? (name : Text) (b : Binding) : Option Text :=
  ((b.get? name).filter fun t => (SortKey.numeric? t).isNone).map Term.value

variable {name : Text} {reverse : Bool} {a b c : Binding} {rows : List Binding}

theorem number?_eq_some {x : Double} :
    number? name b = some x ↔ ∃ s kind,
      b.get? name = some (.literal s kind) ∧ Binary.read? s = some (x, []) ∧ x.isNaN = false := by
  unfold number?
  rw [Option.bind_eq_some_iff]
  constructor
  · rintro ⟨t, bound, isNumber⟩
    obtain ⟨s, kind, rfl, read, proper⟩ := SortKey.numeric?_eq_some.1 isNumber
    exact ⟨s, kind, bound, read, proper⟩
  · rintro ⟨s, kind, bound, read, proper⟩
    exact ⟨_, bound, SortKey.numeric?_eq_some.2 ⟨s, kind, rfl, read, proper⟩⟩

theorem ofRow_number {x : Double} (h : number? name b = some x) : SortKey.ofRow name b = .number x := by
  obtain ⟨t, bound, isNumber⟩ := Option.bind_eq_some_iff.1 h
  simp only [SortKey.ofRow, SortKey.ofTerm?, bound, isNumber]

theorem ofRow_text {s : Text} (h : text? name b = some s) : SortKey.ofRow name b = .text s := by
  obtain ⟨t, isOther, rfl⟩ := Option.map_eq_some_iff.1 h
  obtain ⟨bound, isOther⟩ := Option.filter_eq_some_iff.1 isOther
  simp only [SortKey.ofRow, SortKey.ofTerm?, bound, Option.isNone_iff_eq_none.1 isOther]

theorem ofRow_unbound : SortKey.ofRow name b = .unbound ↔ isBound name b = false := by
  unfold SortKey.ofRow isBound
  cases b.get? name with
  | none => simp [SortKey.ofTerm?]
  | some t => cases h : SortKey.numeric? t <;> simp [SortKey.ofTerm?, h]

theorem isSome_number (bound : isBound name b = true) :
    (number? name b).isSome = !(text? name b).isSome := by
  obtain ⟨t, found⟩ := Option.isSome_iff_exists.1 bound
  simp only [number?, text?, found, Option.bind_some]
  cases h : SortKey.numeric? t <;> simp [Option.filter, h]

theorem isBound_of_number (h : (number? name b).isSome = true) : isBound name b = true := by
  obtain ⟨x, h⟩ := Option.isSome_iff_exists.1 h
  obtain ⟨t, bound, _⟩ := Option.bind_eq_some_iff.1 h
  simp [isBound, bound]

theorem isBound_of_text (h : (text? name b).isSome = true) : isBound name b = true := by
  obtain ⟨s, h⟩ := Option.isSome_iff_exists.1 h
  obtain ⟨t, isOther, _⟩ := Option.map_eq_some_iff.1 h
  simp [isBound, (Option.filter_eq_some_iff.1 isOther).1]

theorem before_asymm (h : before name reverse a b = true) : before name reverse b a = false := SortKey.lt_asymm h

theorem before_split (h : before name reverse a c = true) (b : Binding) :
    before name reverse a b = true ∨ before name reverse b c = true :=
  SortKey.lt_split (SortKey.ofRow_proper name b) h

theorem before_strictWeak (name : Text) (reverse : Bool) :
    IsStrictWeakOrder Binding fun a b => before name reverse a b = true where
  irrefl a h := absurd h (by simp [before_asymm h])
  trans a b c hab hbc := (before_split hab c).resolve_right (by simp [before_asymm hbc])
  incomp_trans a b c hab hbc := by
    constructor
    · intro hac
      rcases before_split hac b with h | h
      · exact hab.1 h
      · exact hbc.1 h
    · intro hca
      rcases before_split hca b with h | h
      · exact hbc.2 h
      · exact hab.2 h

theorem notBefore_trans (a b c : Binding) (hab : (!before name reverse b a) = true)
    (hbc : (!before name reverse c b) = true) : (!before name reverse c a) = true := by
  rw [Bool.not_eq_true'] at hab hbc ⊢
  by_contra hca
  rcases before_split (Bool.eq_true_of_not_eq_false hca) b with h | h
  · simp [hbc] at h
  · simp [hab] at h

theorem notBefore_total (a b : Binding) :
    (!before name reverse b a || !before name reverse a b) = true := by
  cases h : before name reverse b a with
  | false => rfl
  | true => simp [before_asymm h]

theorem sortRows_filter (keep : Binding → Bool) :
    (sortRows name reverse rows).filter keep = sortRows name reverse (rows.filter keep) :=
  Stable.filter_mergeSort notBefore_trans notBefore_total keep rows

theorem sortRows_perm : (sortRows name reverse rows).Perm rows := List.mergeSort_perm _ _

theorem sortRows_pairwise :
    (sortRows name reverse rows).Pairwise fun a b => before name reverse b a = false := by
  have ordered : (sortRows name reverse rows).Pairwise fun a b => (!before name reverse b a) = true :=
    List.pairwise_mergeSort notBefore_trans notBefore_total rows
  exact ordered.imp fun h => by simpa using h

theorem sortRows_eq_self (ordered : rows.Pairwise fun a b => before name reverse b a = false) :
    sortRows name reverse rows = rows :=
  List.mergeSort_of_pairwise (ordered.imp fun h => by simpa [before] using h)

theorem before_unbound (ha : isBound name a = true) (hb : isBound name b = false) :
    before name reverse a b = true := by
  unfold before
  rw [ofRow_unbound.2 hb]
  exact SortKey.lt_unbound fun unbound => by simp [ofRow_unbound.1 unbound] at ha

theorem unbound_before (ha : isBound name a = false) : before name reverse a b = false := by
  unfold before
  rw [ofRow_unbound.2 ha]
  rfl

/-- Whether a row is of the block that comes first: numbers do in ascending order and other terms in descending. -/
def isFirst (name : Text) (reverse : Bool) (b : Binding) : Bool :=
  if reverse then (text? name b).isSome else (number? name b).isSome

theorem isBound_of_first (h : isFirst name reverse b = true) : isBound name b = true := by
  cases reverse with
  | false => exact isBound_of_number h
  | true => exact isBound_of_text h

theorem isFirst_not (bound : isBound name b = true) : isFirst name (!reverse) b = !isFirst name reverse b := by
  have kinds := isSome_number bound
  cases reverse <;> simp [isFirst, kinds]

theorem before_other (first : isFirst name reverse a = true) (other : isFirst name (!reverse) b = true) :
    before name reverse a b = true := by
  unfold before
  cases reverse with
  | false =>
    obtain ⟨x, hx⟩ := Option.isSome_iff_exists.1 first
    obtain ⟨s, hs⟩ := Option.isSome_iff_exists.1 other
    rw [ofRow_number hx, ofRow_text hs]
    rfl
  | true =>
    obtain ⟨s, hs⟩ := Option.isSome_iff_exists.1 first
    obtain ⟨x, hx⟩ := Option.isSome_iff_exists.1 other
    rw [ofRow_text hs, ofRow_number hx]
    rfl

theorem sortRows_unbound :
    sortRows name reverse rows =
      sortRows name reverse (rows.filter (isBound name)) ++ rows.filter (fun b => !isBound name b) := by
  have apart : (sortRows name reverse rows).Pairwise fun a b => isBound name b = true → isBound name a = true :=
    sortRows_pairwise.imp fun notBefore hb => by
      by_contra ha
      simp [before_unbound hb (Bool.eq_false_of_not_eq_true ha)] at notBefore
  have kept : sortRows name reverse (rows.filter fun b => !isBound name b) = rows.filter fun b => !isBound name b := by
    refine sortRows_eq_self (List.pairwise_of_forall_mem_list fun a _ b hb => unbound_before ?_)
    simpa using (List.mem_filter.1 hb).2
  rw [← kept, ← sortRows_filter, ← sortRows_filter, Stable.filter_append_filter apart]

theorem sortRows_bound :
    sortRows name reverse (rows.filter (isBound name)) =
      sortRows name reverse (rows.filter (isFirst name reverse)) ++
        sortRows name reverse (rows.filter (isFirst name !reverse)) := by
  have apart : (sortRows name reverse (rows.filter (isBound name))).Pairwise fun a b =>
      isFirst name reverse b = true → isFirst name reverse a = true := by
    refine sortRows_pairwise.imp_of_mem fun {a b} mem _ notBefore first => ?_
    have bound := (List.mem_filter.1 (sortRows_perm.mem_iff.1 mem)).2
    by_contra other
    have other : isFirst name (!reverse) a = true := by
      rw [isFirst_not bound, Bool.eq_false_of_not_eq_true other]
      rfl
    simp [before_other first other] at notBefore
  have firsts : ∀ b, (isFirst name reverse b && isBound name b) = isFirst name reverse b := fun b => by
    cases h : isFirst name reverse b with
    | false => rfl
    | true => exact isBound_of_first h
  have others : ∀ b, (!isFirst name reverse b && isBound name b) = isFirst name (!reverse) b := fun b => by
    cases bound : isBound name b with
    | false =>
      rw [Bool.and_false]
      exact (Bool.eq_false_of_not_eq_true fun h => by simp [isBound_of_first h] at bound).symm
    | true => rw [Bool.and_true, isFirst_not bound]
  rw [← Stable.filter_append_filter apart, sortRows_filter, sortRows_filter, List.filter_filter, List.filter_filter]
  simp only [firsts, others]

theorem number_le {x y : Double} (notBefore : before name reverse b a = false) (hx : number? name a = some x)
    (hy : number? name b = some y) : if reverse then y.value ≤ x.value else x.value ≤ y.value := by
  have properA := SortKey.ofRow_proper name a
  have properB := SortKey.ofRow_proper name b
  rw [ofRow_number hx] at properA
  rw [ofRow_number hy] at properB
  unfold before at notBefore
  rw [ofRow_number hx, ofRow_number hy, SortKey.lt_number] at notBefore
  cases reverse with
  | false =>
    refine not_lt.1 fun below => ?_
    rw [if_neg Bool.false_ne_true, (Binary.lt_iff_value properB properA).2 below] at notBefore
    cases notBefore
  | true =>
    refine not_lt.1 fun below => ?_
    rw [if_pos rfl, (Binary.lt_iff_value properA properB).2 below] at notBefore
    cases notBefore

theorem text_le {s t : Text} (notBefore : before name reverse b a = false) (hs : text? name a = some s)
    (ht : text? name b = some t) : if reverse then t ≤ s else s ≤ t := by
  unfold before at notBefore
  rw [ofRow_text hs, ofRow_text ht, SortKey.lt_text] at notBefore
  cases reverse <;> simpa using notBefore

/-- Rows that are tied with one row are tied with each other, and so stay as they were. -/
theorem sortRows_filter_tied (r : Binding) :
    (sortRows name reverse rows).filter (tied name reverse r) = rows.filter (tied name reverse r) := by
  rw [sortRows_filter]
  refine sortRows_eq_self (List.pairwise_of_forall_mem_list fun a ha b hb => ?_)
  have tiedA := (List.mem_filter.1 ha).2
  have tiedB := (List.mem_filter.1 hb).2
  simp only [tied, Bool.and_eq_true, Bool.not_eq_true'] at tiedA tiedB
  by_contra h
  rcases before_split (Bool.eq_true_of_not_eq_false h) r with h | h
  · simp [tiedB.2] at h
  · simp [tiedA.1] at h

/-- Sorting rows by a variable, in either direction. The numbers are the literals that are read as one to their end. -/
theorem sortRows_ordered (name : Text) (reverse : Bool) (rows : List Binding) :
    IsStrictWeakOrder Binding (fun a b => before name reverse a b = true) ∧
    (sortRows name reverse rows).Perm rows ∧
    (∀ r, (sortRows name reverse rows).filter (tied name reverse r) = rows.filter (tied name reverse r)) ∧
    (∀ b x, number? name b = some x ↔ ∃ s kind,
      b.get? name = some (.literal s kind) ∧ Binary.read? s = some (x, []) ∧ x.isNaN = false) ∧
    (∃ numbers texts,
      sortRows name reverse rows =
        (if reverse then texts ++ numbers else numbers ++ texts) ++ rows.filter (fun b => !isBound name b) ∧
      numbers.Perm (rows.filter fun b => (number? name b).isSome) ∧
      texts.Perm (rows.filter fun b => (text? name b).isSome) ∧
      numbers.Pairwise (fun a b => ∀ x ∈ number? name a, ∀ y ∈ number? name b,
        if reverse then y.value ≤ x.value else x.value ≤ y.value) ∧
      texts.Pairwise (fun a b => ∀ s ∈ text? name a, ∀ t ∈ text? name b, if reverse then t ≤ s else s ≤ t)) ∧
    sortRows name reverse (sortRows name reverse rows) = sortRows name reverse rows := by
  refine ⟨before_strictWeak name reverse, sortRows_perm, sortRows_filter_tied,
    fun _ _ => number?_eq_some, ⟨sortRows name reverse (rows.filter fun b => (number? name b).isSome),
      sortRows name reverse (rows.filter fun b => (text? name b).isSome), ?_, sortRows_perm, sortRows_perm, ?_, ?_⟩,
    sortRows_eq_self sortRows_pairwise⟩
  · rw [sortRows_unbound, sortRows_bound]
    cases reverse <;> rfl
  · exact sortRows_pairwise.imp fun notBefore x hx y hy => number_le notBefore hx hy
  · exact sortRows_pairwise.imp fun notBefore s hs t ht => text_le notBefore hs ht

end Solutions

end QuadStore
