import QuadStore.Proofs.StoredQuints

namespace QuadStore

namespace Term

variable {p : Position} {t : Term} {lexical d : Text}

inductive Spelled : Term → Prop
  | defaultGraph : Spelled .defaultGraph
  | iri (value : Text) : Spelled (.iri value)
  | blank (label : Text) : Spelled (.blank label)
  | var (name : Text) : Spelled (.var name)
  | plain (lexical : Text) : Spelled (.plain lexical)
  | tagged (lexical : Text) {language : Text} (unquoted : quote ∉ language) : Spelled (.tagged lexical language)
  | typed (lexical datatype : Text) : Spelled (.typed lexical datatype)

def Clear (p : Position) : Term → Prop
  | iri value => Bare value ∧ (p = .object → ¬ Fielded value)
  | literal lexical (.datatype d) => quote ∉ d ∧ (p = .object → Keyed d → separator ∉ lexical)
  | _ => True

instance (v : Text) : Decidable (Bare v) :=
  decidable_of_iff (decode v = .iri v) (decode_eq_iri.trans ⟨And.right, fun bare => ⟨rfl, bare⟩⟩)

instance (v : Text) : Decidable (Fielded v) := inferInstanceAs (Decidable (_ ∨ _))

instance (d : Text) : Decidable (Keyed d) := inferInstanceAs (Decidable (_ ∨ _))

instance (p : Position) (t : Term) : Decidable (t.Clear p) :=
  match t with
  | iri _ => inferInstanceAs (Decidable (_ ∧ _))
  | literal _ (.datatype _) => inferInstanceAs (Decidable (_ ∧ _))
  | literal _ .plain | literal _ (.language _) | blank _ | defaultGraph | var _ => .isTrue trivial

theorem ofStored_eq_iri {s v : Text} : ofStored s p = .iri v ↔ s = v ∧ (iri v).Clear p := by
  cases p with
  | object => simpa [ofStored, Clear] using decodeObject_eq_iri
  | _ => simpa [ofStored, Clear] using decode_eq_iri

theorem quote_not_mem_read {s : Text} (read : decode s = .literal lexical (.datatype d)) : quote ∉ d := by
  cases s with
  | nil => cases read
  | cons c rest =>
    unfold decode at read
    dsimp only at read
    split at read
    · cases found : decodeLiteral? rest with
      | none =>
        rw [found] at read
        cases read
      | some t =>
        rw [found] at read
        obtain ⟨before, suffix, -, unquoted, kinds⟩ := decodeLiteral?_inv found
        rcases kinds with ⟨-, kind⟩ | ⟨tag, -, kind⟩ | ⟨e, carets, kind⟩
        · cases kind.symm.trans read
        · have kinds := kind.symm.trans read
          unfold tagged at kinds
          split at kinds <;> cases kinds
        · have kinds := kind.symm.trans read
          unfold typed at kinds
          split at kinds
          · cases kinds
          · cases kinds
            rw [carets, List.mem_append, not_or] at unquoted
            exact fun mem => unquoted.2 (mem_of_mem_unbracketed mem)
    · split at read
      · cases read
      · split at read <;> cases read

theorem Keyed.quote_not_mem (h : Keyed d) : quote ∉ d := by
  have all : ∀ d ∈ Xsd.numericNames.map (Xsd.base ++ ·), quote ∉ d := by decide +kernel
  rcases h with numeric | rfl
  · exact all d ((Xsd.isNumeric_iff d).1 numeric)
  · decide +kernel

theorem ofStored_datatype (p : Position) (lexical d : Text) :
    ofStored ((literal lexical (.datatype d)).stored p) p =
      if p = .object ∧ Keyed d then typed lexical.upToNul d else decode (annotated lexical (.datatype d)) := by
  cases p with
  | object =>
    by_cases keyed : Keyed d
    · rw [if_pos ⟨rfl, keyed⟩]
      exact decodeObject_keyed lexical keyed
    · rw [if_neg fun both => keyed both.2]
      exact decodeObject_unkeyed lexical keyed
  | _ => rfl

theorem typed_eq (lexical d : Text) :
    typed lexical d = plain lexical ∨ typed lexical d = .literal lexical (.datatype d) := by
  unfold typed plain
  split
  · exact .inl rfl
  · exact .inr rfl

theorem clear_typed (unquoted : quote ∉ d) (whole : p = .object → Keyed d → separator ∉ lexical) :
    (typed lexical d).Clear p := by
  rcases typed_eq lexical d with same | same
  · rw [same]
    trivial
  · rw [same]
    exact ⟨unquoted, whole⟩

theorem separator_not_mem_upToNul (s : Text) : separator ∉ s.upToNul := by
  intro mem
  simpa [separator] using List.mem_takeWhile_imp mem

namespace Spelled

theorem kept (h : Spelled t) (clear : t.Clear p) : t.Kept p := by
  cases h with
  | defaultGraph => exact Storable.defaultGraph.kept p
  | iri value => exact ofStored_eq_iri.2 ⟨by cases p <;> rfl, clear⟩
  | blank label => exact (Storable.blank label).kept p
  | var name => cases p <;> rfl
  | plain lexical => exact (Storable.plain lexical).kept p
  | tagged lexical unquoted => exact (Storable.tagged lexical _ unquoted).kept p
  | typed lexical d =>
    rcases typed_eq lexical d with same | same
    · rw [same]
      exact (Storable.plain lexical).kept p
    · rw [same] at clear ⊢
      rw [Kept, ofStored_datatype]
      split
      · rename_i keyed
        rw [upToNul_whole (clear.2 keyed.1 keyed.2), same]
      · rw [decode_datatype lexical d clear.1, same]

theorem clear_or (h : Spelled t) (p : Position) :
    t.Clear p ∨ (∃ value, t = .iri value) ∨
      ∃ lexical d, t = .literal lexical (.datatype d) := by
  cases h with
  | iri value => exact .inr (.inl ⟨value, rfl⟩)
  | tagged lexical _ =>
    left
    unfold Term.tagged
    split <;> trivial
  | typed lexical d =>
    rcases typed_eq lexical d with same | same
    · rw [same]
      exact .inl trivial
    · exact .inr (.inr ⟨lexical, d, same⟩)
  | _ => exact .inl trivial

variable (h : Spelled t) (iris : ∀ value, t = .iri value → t.Clear p)

include h iris

theorem unquoted_regained (read : ofStored (t.stored p) p = .literal lexical (.datatype d)) : quote ∉ d := by
  by_cases clear : t.Clear p
  · have kept : ofStored (t.stored p) p = t := h.kept clear
    rw [← kept, read] at clear
    exact clear.1
  · rcases h.clear_or p with already | ⟨value, iri⟩ | ⟨a, e, rfl⟩
    · exact absurd already clear
    · exact absurd (iris value iri) clear
    · rw [ofStored_datatype] at read
      split at read
      · rename_i keyed
        rcases typed_eq a.upToNul e with same | same
        · cases same.symm.trans read
        · cases same.symm.trans read
          exact keyed.2.quote_not_mem
      · exact quote_not_mem_read read

theorem clear_regained (unquoted : ∀ lexical d, t = .literal lexical (.datatype d) → quote ∉ d) :
    (ofStored (t.stored p) p).Clear p := by
  by_cases clear : t.Clear p
  · have kept : ofStored (t.stored p) p = t := h.kept clear
    rw [kept]
    exact clear
  · rcases h.clear_or p with already | ⟨value, iri⟩ | ⟨a, e, rfl⟩
    · exact absurd already clear
    · exact absurd (iris value iri) clear
    · have none := unquoted a e rfl
      rw [ofStored_datatype]
      split
      · exact clear_typed none fun _ _ => separator_not_mem_upToNul a
      · rename_i plain
        rw [decode_datatype a e none]
        exact clear_typed none fun object keyed => absurd ⟨object, keyed⟩ plain

end Spelled

end Term

/-- If each of some statements is read from the texts of one of them, all of their terms are clear. -/
theorem Quad.clear_of_regained {quads : List Quad} (spelled : ∀ q ∈ quads, ∀ p, (q.get p).Spelled)
    (regained : ∀ k ∈ quads, ∃ q ∈ quads, ∀ p, k.get p = Term.ofStored ((q.get p).stored p) p) :
    ∀ k ∈ quads, ∀ p, (k.get p).Clear p := by
  -- No text is read as an unclear IRI; so there is none, and then no quoted datatype, and then no cut number.
  have iris : ∀ k ∈ quads, ∀ p value, k.get p = .iri value → (k.get p).Clear p := by
    intro k mem p value iri
    obtain ⟨q, -, read⟩ := regained k mem
    rw [iri]
    exact (Term.ofStored_eq_iri.1 ((read p).symm.trans iri)).2
  have unquoted : ∀ k ∈ quads, ∀ p lexical d, k.get p = .literal lexical (.datatype d) → Term.quote ∉ d := by
    intro k mem p lexical d literal
    obtain ⟨q, inside, read⟩ := regained k mem
    exact (spelled q inside p).unquoted_regained (iris q inside p) ((read p).symm.trans literal)
  intro k mem p
  obtain ⟨q, inside, read⟩ := regained k mem
  rw [read p]
  exact (spelled q inside p).clear_regained (iris q inside p) (unquoted q inside p)

end QuadStore
