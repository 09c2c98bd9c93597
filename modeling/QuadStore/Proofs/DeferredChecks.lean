import QuadStore.Proofs.Transactions
import QuadStore.Sql.Inventory

namespace QuadStore.Sql.Inventory

open Connection QuadStore.Step

variable {d after : Inventory}

def grown (d : Inventory) (items parts : List Text) : Inventory :=
  { d with items := d.items ++ items, parts := d.parts ++ parts.map some }

def Free (d : Inventory) (items : List Text) : Prop := items.Nodup ∧ ∀ name ∈ items, name ∉ d.items

instance (d : Inventory) (items : List Text) : Decidable (d.Free items) := inferInstanceAs (Decidable (_ ∧ _))

theorem addItem_eq (d : Inventory) (name : Text) :
    d.addItem name = if name ∈ d.items then .error .duplicateItem else .ok (d.grown [name] []) := by
  unfold addItem grown
  simp only [List.contains_iff_mem, List.map_nil, List.append_nil]

theorem free_cons (d : Inventory) (name : Text) (items : List Text) :
    d.Free (name :: items) ↔ name ∉ d.items ∧ (d.grown [name] []).Free items := by
  unfold Free grown
  simp only [List.nodup_cons, List.forall_mem_cons, List.mem_append, List.mem_singleton, not_or]
  constructor
  · rintro ⟨⟨other, nodup⟩, own, free⟩
    exact ⟨own, nodup, fun n mem => ⟨free n mem, fun same => other (same ▸ mem)⟩⟩
  · rintro ⟨own, nodup, free⟩
    exact ⟨⟨fun mem => (free name mem).2 rfl, nodup⟩, own, fun n mem => (free n mem).1⟩

theorem addItems_eq (d : Inventory) (items : List Text) :
    items.foldlM addItem d = if d.Free items then .ok (d.grown items []) else .error .duplicateItem := by
  induction items generalizing d with
  | nil =>
    have free : d.Free [] := ⟨List.nodup_nil, List.forall_mem_nil _⟩
    rw [if_pos free]
    simp [grown, pure, Except.pure]
  | cons name items ih =>
    rw [List.foldlM_cons, addItem_eq]
    by_cases own : name ∈ d.items
    · rw [if_pos own, if_neg fun free => ((free_cons d name items).1 free).1 own]
      rfl
    · have rest : d.Free (name :: items) ↔ (d.grown [name] []).Free items :=
        (free_cons d name items).trans (and_iff_right own)
      have both : (d.grown [name] []).grown items [] = d.grown (name :: items) [] := by simp [grown]
      rw [if_neg own]
      simp only [bind, Except.bind, ih, rest, both]

theorem addParts_eq (d : Inventory) (parts : List Text) :
    parts.foldlM (fun d name => (.ok (d.addPart (some name)) : Except Failure Inventory)) d = .ok (d.grown [] parts) := by
  induction parts generalizing d with
  | nil => simp [grown, pure, Except.pure]
  | cons name parts ih =>
    have both : (d.addPart (some name)).grown [] parts = d.grown [] (name :: parts) := by simp [grown, addPart]
    rw [List.foldlM_cons]
    exact (ih (d.addPart (some name))).trans (congrArg Except.ok both)

theorem performs_insertions (items parts : List Text) :
    Performs (insertions items parts) fun d =>
      if d.Free items then .ok (d.grown items parts) else .error .duplicateItem := by
  have item : ∀ name, Performs (statement fun d => (addItem d name).map fun after => ((), after))
      fun d => d.addItem name := by
    intro name
    have run := Performs.effect fun d => (addItem d name).map fun after => ((), after)
    have same : (fun d => ((addItem d name).map fun after => ((), after)).map (·.2)) = fun d => d.addItem name := by
      funext d
      cases d.addItem name <;> rfl
    rwa [same] at run
  have part : ∀ name, Performs (statement fun d => .ok ((), addPart d (some name)))
      fun d => .ok (addPart d (some name)) := fun name => .effect fun d => .ok ((), addPart d (some name))
  have inTurn := (Performs.forM item items).bind (.forM part parts)
  have result : (fun d => items.foldlM addItem d >>= fun d =>
      parts.foldlM (fun d name => (.ok (d.addPart (some name)) : Except Failure Inventory)) d) =
      fun d => if d.Free items then .ok (d.grown items parts) else .error .duplicateItem := by
    funext d
    rw [addItems_eq]
    split
    · have both : (d.grown items []).grown [] parts = d.grown items parts := by simp [grown]
      exact (addParts_eq (d.grown items []) parts).trans (congrArg Except.ok both)
    · rfl
  rwa [result] at inTurn

/-- Items and parts are added in one transaction if no name is taken and every part has its item in the end, not
before. Otherwise the transaction fails, in a statement or when it is to end, and nothing has been added. -/
theorem plainly_insertions (d : Inventory) (items parts : List Text) :
    plainly (inTransaction check (insertions items parts)) d =
      if d.Free items then
        if (d.grown items parts).parts.all (d.grown items parts).isResolved then (.ok (), d.grown items parts)
        else (.error .missingItem, d)
      else (.error .duplicateItem, d) := by
  rw [plainly_inTransaction (performs_insertions items parts)]
  by_cases free : d.Free items
  · rw [if_pos free, if_pos free]
    by_cases resolved : (d.grown items parts).parts.all (d.grown items parts).isResolved = true
    · have passed : (d.grown items parts).check = .ok () := if_pos resolved
      rw [if_pos resolved]
      simp only [bind, Except.bind, Except.map, passed]
    · have failed : (d.grown items parts).check = .error .missingItem := if_neg resolved
      rw [if_neg resolved]
      simp only [bind, Except.bind, Except.map, failed]
  · rw [if_neg free, if_neg free]
    rfl

theorem batch_eq (d : Inventory) (items parts : List Text) :
    d.batch items parts =
      if d.isOpen then
        if d.Free items then
          if (d.grown items parts).parts.all (d.grown items parts).isResolved then .ok (d.grown items parts)
          else .error .missingItem
        else .error .duplicateItem
      else .error .closedConnection := by
  unfold batch requireOpen
  cases d.isOpen with
  | false => rfl
  | true =>
    rw [plainly_insertions]
    by_cases free : d.Free items
    · rw [if_pos free, if_pos free]
      cases (d.grown items parts).parts.all (d.grown items parts).isResolved <;> rfl
    · rw [if_neg free, if_neg free]
      rfl

structure Sound (d : Inventory) : Prop where
  distinct : d.items.Nodup
  resolved : d.parts.all d.isResolved = true

inductive Changes (d : Inventory) : Inventory → Prop where
  | batch {after : Inventory} {items parts : List Text} (done : d.batch items parts = .ok after) : Changes d after
  | insert {after : Inventory} {name : Text} (done : d.insert name = .ok after) : Changes d after
  | deleteFrom {after : Inventory} {name : Text} {n : Nat} (done : d.deleteFrom name = .ok (after, n)) : Changes d after
  | insertPart {after : Inventory} (done : d.insertPart = .ok after) : Changes d after
  | close : Changes d d.close

theorem batch_sound {items parts : List Text} (h : d.Sound) (done : d.batch items parts = .ok after) : after.Sound := by
  rw [batch_eq] at done
  split at done
  · split at done
    · split at done
      · rename_i free resolved
        cases done
        refine ⟨List.nodup_append.2 ⟨h.distinct, free.1, ?_⟩, resolved⟩
        rintro a old b new rfl
        exact free.2 a new old
      · cases done
    · cases done
  · cases done

theorem requireOpen_ok {α : Type} {rest : Except Failure α} {a : α} (done : (do d.requireOpen; rest) = .ok a) :
    rest = .ok a := by
  unfold requireOpen at done
  split at done
  · exact done
  · cases done

theorem resolved_mono {more : List Text} (h : d.parts.all d.isResolved = true) :
    (d.grown more []).parts.all (d.grown more []).isResolved = true := by
  have same : (d.grown more []).parts = d.parts := List.append_nil _
  rw [same, List.all_eq_true]
  intro part mem
  have old := List.all_eq_true.1 h part mem
  cases part with
  | none => rfl
  | some name => exact List.contains_iff_mem.2 (List.mem_append_left _ (List.contains_iff_mem.1 old))

theorem insert_sound {name : Text} (h : d.Sound) (done : d.insert name = .ok after) : after.Sound := by
  have added := requireOpen_ok done
  rw [addItem_eq] at added
  split at added
  · cases added
  · rename_i own
    cases added
    refine ⟨List.nodup_append.2 ⟨h.distinct, List.pairwise_singleton _ name, ?_⟩, resolved_mono h.resolved⟩
    rintro a old b new rfl
    exact own (List.mem_singleton.1 new ▸ old)

theorem deleteFrom_sound {name : Text} {n : Nat} (h : d.Sound) (done : d.deleteFrom name = .ok (after, n)) :
    after.Sound := by
  have deleted := requireOpen_ok done
  dsimp only at deleted
  unfold check at deleted
  split at deleted
  · rename_i resolved
    cases deleted
    exact ⟨h.distinct.filter _, resolved⟩
  · cases deleted

theorem insertPart_sound (h : d.Sound) (done : d.insertPart = .ok after) : after.Sound := by
  cases requireOpen_ok done
  refine ⟨h.distinct, List.all_eq_true.2 fun part mem => ?_⟩
  rcases List.mem_append.1 mem with mem | mem
  · exact List.all_eq_true.1 h.resolved part mem
  · rw [List.mem_singleton.1 mem]
    rfl

theorem Changes.sound (h : d.Sound) (changes : Changes d after) : after.Sound := by
  cases changes with
  | batch done => exact batch_sound h done
  | insert done => exact insert_sound h done
  | deleteFrom done => exact deleteFrom_sound h done
  | insertPart done => exact insertPart_sound h done
  | close => exact ⟨h.distinct, h.resolved⟩

inductive Reachable : Inventory → Prop where
  | empty : Reachable .empty
  | next {d after : Inventory} (reached : Reachable d) (changes : Changes d after) : Reachable after

theorem Reachable.sound (reached : Reachable d) : d.Sound := by
  induction reached with
  | empty => exact ⟨List.nodup_nil, rfl⟩
  | next _ changes ih => exact changes.sound ih

end QuadStore.Sql.Inventory
