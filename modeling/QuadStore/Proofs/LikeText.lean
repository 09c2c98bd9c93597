import QuadStore.Like

namespace QuadStore

namespace Text

variable {c : UInt8} {s : Text}

theorem upToNul_cons (present : c ≠ 0) : upToNul (c :: s) = c :: s.upToNul :=
  List.takeWhile_cons_of_pos (by simpa using present)

theorem upToNul_nul (s : Text) : upToNul (0 :: s) = [] :=
  List.takeWhile_cons_of_neg (by simp)

theorem upToNul_append_whole (whole : 0 ∉ s) (t : Text) : upToNul (s ++ t) = s ++ t.upToNul := by
  refine List.takeWhile_append_of_pos fun c mem => ?_
  rw [decide_eq_true_eq]
  rintro rfl
  exact whole mem

theorem upToNul_append_cut (cut : 0 ∈ s) (t : Text) : upToNul (s ++ t) = s.upToNul := by
  induction s with
  | nil => cases cut
  | cons c s ih =>
    by_cases nul : c = 0
    · rw [nul, List.cons_append, upToNul_nul, upToNul_nul]
    · rw [List.cons_append, upToNul_cons nul, upToNul_cons nul, ih ((List.mem_cons.1 cut).resolve_left (Ne.symm nul))]

end Text

namespace Like

variable {s v : Text} {test : Text → Bool}

theorem someTail_iff : someTail test v = true ↔ ∃ tail, tail <:+ v ∧ test tail = true := by
  induction v with
  | nil => simp [someTail]
  | cons c v ih =>
    rw [someTail, Bool.or_eq_true, ih]
    constructor
    · rintro (whole | ⟨tail, end_, holds⟩)
      · exact ⟨_, List.suffix_rfl, whole⟩
      · exact ⟨tail, end_.trans (List.suffix_cons c v), holds⟩
    · rintro ⟨tail, end_, holds⟩
      rcases List.suffix_cons_iff.1 end_ with rfl | shorter
      · exact .inl holds
      · exact .inr ⟨tail, shorter, holds⟩

theorem items?_escaped (c : UInt8) (rest : Text) :
    items? (backslash :: c :: rest) = (items? rest).map (.byte c :: ·) := by
  rw [items?.eq_def]
  exact if_pos rfl

theorem items?_percent (rest : Text) : items? (percent :: rest) = (items? rest).map (.any :: ·) := by
  have other : percent ≠ backslash := by decide
  rw [items?.eq_def]
  dsimp only
  rw [if_neg other, if_pos rfl]

theorem items?_plain {c : UInt8} (plain : ¬ (c = backslash ∨ c = percent ∨ c = underscore)) (rest : Text) :
    items? (c :: rest) = (items? rest).map (.byte c :: ·) := by
  simp only [not_or] at plain
  rw [items?.eq_def]
  dsimp only
  rw [if_neg plain.1, if_neg plain.2.1, if_neg plain.2.2]

theorem items?_escape (s rest : Text) : items? (escape s ++ rest) = (items? rest).map (s.map .byte ++ ·) := by
  induction s with
  | nil => simp [escape]
  | cons c s ih =>
    rw [escape]
    split
    · rw [List.cons_append, List.cons_append, items?_escaped, ih, Option.map_map]
      rfl
    · rename_i plain
      rw [List.cons_append, items?_plain plain, ih, Option.map_map]
      rfl

theorem upToNul_escape (s : Text) : (escape s).upToNul = escape s.upToNul := by
  induction s with
  | nil => rfl
  | cons c s ih =>
    rw [escape]
    split
    · rename_i meaning
      have present : c ≠ 0 := by
        rintro rfl
        revert meaning
        decide
      rw [Text.upToNul_cons (by decide), Text.upToNul_cons present, Text.upToNul_cons present, escape, if_pos meaning,
        ih]
    · rename_i plain
      by_cases nul : c = 0
      · rw [nul, Text.upToNul_nul, Text.upToNul_nul, escape]
      · rw [Text.upToNul_cons nul, Text.upToNul_cons nul, escape, if_neg plain, ih]

theorem itemsMatch_bytes (s v : Text) (items : List Item) :
    itemsMatch (s.map .byte ++ items) v = true ↔ ∃ rest, v = s ++ rest ∧ itemsMatch items rest = true := by
  induction s generalizing v with
  | nil => simp
  | cons c s ih =>
    cases v with
    | nil => simp [itemsMatch]
    | cons d v =>
      rw [List.map_cons, List.cons_append, itemsMatch, Bool.and_eq_true, decide_eq_true_eq, ih]
      constructor
      · rintro ⟨rfl, rest, rfl, tail⟩
        exact ⟨rest, rfl, tail⟩
      · rintro ⟨rest, same, tail⟩
        obtain ⟨rfl, rfl⟩ := List.cons.inj same
        exact ⟨rfl, rest, rfl, tail⟩

theorem itemsMatch_text : itemsMatch (s.map .byte) v = true ↔ v = s := by
  have exact_ := itemsMatch_bytes s v []
  rw [List.append_nil] at exact_
  rw [exact_]
  simp [itemsMatch]

theorem holds_items {pattern : Text} {items : List Item} (read : items? pattern.upToNul = some items) :
    holds pattern v = itemsMatch items v.upToNul := by
  unfold holds
  rw [read]

theorem holds_ending : holds (ending s) v = true ↔ s.upToNul <:+ v.upToNul := by
  have read : items? (ending s).upToNul = some (.any :: s.upToNul.map .byte) := by
    have text := items?_escape s.upToNul []
    rw [List.append_nil] at text
    rw [ending, Text.upToNul_cons (by decide), items?_percent, upToNul_escape, text]
    simp [items?]
  rw [holds_items read, itemsMatch, someTail_iff]
  constructor
  · rintro ⟨tail, end_, found⟩
    rwa [← itemsMatch_text.1 found]
  · intro end_
    exact ⟨s.upToNul, end_, itemsMatch_text.2 rfl⟩

theorem nul_mem_escape : 0 ∈ escape s ↔ 0 ∈ s := by
  induction s with
  | nil => rfl
  | cons c s ih =>
    have present : (0 : UInt8) ≠ backslash := by decide
    rw [escape]
    split <;> simp [ih, present]

theorem holds_containing (whole : 0 ∉ s) : holds (containing s) v = true ↔ s <:+: v.upToNul := by
  have read : items? (containing s).upToNul = some (.any :: (s.map .byte ++ [.any])) := by
    have escaped : 0 ∉ escape s := fun nul => whole (nul_mem_escape.1 nul)
    have same : (escape s ++ [percent]).upToNul = escape s ++ [percent] := Text.upToNul_append_whole escaped _
    rw [containing, List.cons_append, Text.upToNul_cons (by decide), same, items?_percent, items?_escape]
    rfl
  rw [holds_items read, itemsMatch, someTail_iff]
  simp only [itemsMatch_bytes]
  constructor
  · rintro ⟨_, ⟨before, split⟩, after, rfl, -⟩
    exact ⟨before, after, by rw [List.append_assoc, split]⟩
  · rintro ⟨before, after, split⟩
    refine ⟨s ++ after, ⟨before, by rw [← split, List.append_assoc]⟩, after, rfl, ?_⟩
    exact someTail_iff.2 ⟨[], List.nil_suffix, rfl⟩

/-- A pattern that is cut at a NUL loses its last wildcard. -/
theorem holds_containing_cut (cut : 0 ∈ s) : holds (containing s) v = holds (ending s) v := by
  have same : (containing s).upToNul = (ending s).upToNul := by
    rw [containing, ending, List.cons_append, Text.upToNul_cons (by decide), Text.upToNul_cons (by decide),
      Text.upToNul_append_cut (nul_mem_escape.2 cut)]
  rw [holds, holds, same]

end Like

end QuadStore
