import QuadStore.Proofs.Placeholders

namespace QuadStore

open Sql

def Condition.values : Condition → List Param
  | .compare _ s | .like s => [.text s]
  | .among ss | .notAmong ss => ss.map .text
  | .between first last => [.text first, .text last]
  | .isNull _ => []

def Clause.values (clauses : List Clause) : List Param := clauses.flatMap fun c => c.condition.values

namespace Sql

namespace Fragment

theorem params_joined (separator : Text) (fs : List Fragment) :
    (joined separator fs).params = fs.flatMap (·.params) := by
  induction fs with
  | nil => rfl
  | cons f fs ih =>
    cases fs with
    | nil => exact (List.append_nil f.params).symm
    | cons g fs =>
      calc (f ++ raw separator ++ joined separator (g :: fs)).params
          = f.params ++ [] ++ (joined separator (g :: fs)).params := rfl
        _ = (f :: g :: fs).flatMap (·.params) := by
          rw [ih, List.append_nil]
          rfl

theorem params_listed (ps : List Param) : (params? ps).params = ps := by
  rw [params?, params_joined, List.flatMap_map]
  exact List.flatMap_singleton' ps

theorem params_written {fs : List Fragment} (silent : ∀ f ∈ fs, f.text = [] → f.params = []) :
    (fs.filter (·.text ≠ [])).flatMap (·.params) = fs.flatMap (·.params) := by
  induction fs with
  | nil => rfl
  | cons f fs ih =>
    have rest := ih fun g mem => silent g (List.mem_cons_of_mem f mem)
    by_cases none_ : f.text = []
    · rw [List.filter_cons_of_neg (by simpa using none_), rest, List.flatMap_cons, silent f List.mem_cons_self none_,
        List.nil_append]
    · rw [List.filter_cons_of_pos (by simpa using none_), List.flatMap_cons, List.flatMap_cons, rest]

theorem Reads.params_of_text_nil {f : Fragment} {x : List Piece} (h : f.Reads x) (none_ : f.text = []) :
    f.params = [] := by
  have count := h.carries.count
  rw [none_, placeholders] at count
  exact List.length_eq_zero_iff.1 count.symm

end Fragment

theorem params_condition (column : Text) (c : Condition) : (conditionFragment column c).params = c.values := by
  cases c with
  | compare | between | like => rfl
  | isNull expected => cases expected <;> rfl
  | among ss =>
    cases ss with
    | nil => rfl
    | cons s ss =>
      have own := Fragment.params_listed ((s :: ss).map .text)
      calc [] ++ (Fragment.params? ((s :: ss).map .text)).params ++ []
          = (s :: ss).map .text := by rw [own, List.append_nil, List.nil_append]
  | notAmong ss =>
    have own := Fragment.params_listed (ss.map .text)
    calc [] ++ (Fragment.params? (ss.map .text)).params ++ []
        = ss.map .text := by rw [own, List.append_nil, List.nil_append]

theorem params_conditions (qualifier : Text) (clauses : List Clause) :
    (conditionsFragment qualifier clauses).params = Clause.values clauses := by
  rw [conditionsFragment, Fragment.params_joined, List.flatMap_map]
  exact congrArg (List.flatMap · clauses) (funext fun c => params_condition _ c.condition)

theorem params_filtered {f : Fragment} {x : List Piece} (h : f.Reads x) : (filtered f).params = f.params := by
  unfold filtered
  split
  · exact (h.params_of_text_nil ‹_›).symm
  · rfl

theorem params_order (qualifier : Text) (options : Options) : (orderFragment qualifier options).params = [] := by
  unfold orderFragment
  split <;> rfl

namespace Query

theorem params_select (columns : List Column) (clauses : List Clause) (options : Options) :
    (select columns clauses options).render.params = Clause.values clauses ++ (sliceFragment options).params := by
  have conditions : (whereFragment clauses).params = Clause.values clauses :=
    (params_filtered (Clause.reads_all (by decide) clauses)).trans (params_conditions [] clauses)
  calc [] ++ (whereFragment clauses).params ++ (orderFragment [] options).params ++ (sliceFragment options).params
      = Clause.values clauses ++ (sliceFragment options).params := by
        rw [conditions, params_order, List.append_nil, List.nil_append]

theorem params_join (j : Join) (options : Options) :
    (join j options).render.params = j.patterns.flatMap Clause.values ++ (sliceFragment options).params := by
  have conditions : (filtered j.conditions).params = j.patterns.flatMap Clause.values := by
    rw [params_filtered j.reads_conditions, Join.conditions, Fragment.params_joined, Fragment.params_written,
      List.flatMap_map]
    · calc j.patterns.zipIdx.flatMap (fun x => (conditionsFragment (patternName x.2 ++ ".") x.1).params)
          = j.patterns.zipIdx.flatMap (fun x => Clause.values x.1) :=
            congrArg (List.flatMap · j.patterns.zipIdx) (funext fun x => params_conditions _ x.1)
        _ = (j.patterns.zipIdx.map (·.1)).flatMap Clause.values := (List.flatMap_map ..).symm
        _ = j.patterns.flatMap Clause.values := by rw [List.zipIdx_map_fst]
    · intro f mem
      obtain ⟨x, -, rfl⟩ := List.mem_map.1 mem
      exact (Clause.reads_all ((patternName_plain x.2).append (by decide)) x.1).params_of_text_nil
  calc [] ++ (filtered j.conditions).params ++ (orderFragment "q0." options).params ++ (sliceFragment options).params
      = j.patterns.flatMap Clause.values ++ (sliceFragment options).params := by
        rw [conditions, params_order, List.append_nil, List.nil_append]

end Query

theorem length_among_le (columns : List Column) {clauses : List Clause} (options : Options) {p : Position}
    {values : List Text} (mem : ⟨p, .among values⟩ ∈ clauses) :
    values.length ≤ (Query.select columns clauses options).render.params.length := by
  obtain ⟨before, after, rfl⟩ := List.append_of_mem mem
  rw [Query.params_select, Clause.values, List.flatMap_append, List.flatMap_cons]
  simp only [Condition.values, List.length_append, List.length_map]
  omega

end Sql

end QuadStore
