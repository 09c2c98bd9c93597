import QuadStore.Proofs.StoreMap
import QuadStore.Store.Stream

namespace QuadStore

open Sql Step

namespace Stream

def argument (subject predicate object graph : Option Term) : Position → Option Term
  | .subject => subject
  | .predicate => predicate
  | .object => object
  | .graph => graph

/-- A variable leaves its position open, and the default graph that of the graph. -/
def leavesOpen (position : Position) (t : Term) : Bool := t.isVar || (position = .graph && t = .defaultGraph)

theorem fixed?_eq (position : Position) (other : position ≠ .graph) (t : Option Term) :
    fixed? t = (t.filter fun t => !leavesOpen position t).map .term := by
  rcases t with _ | t
  · rfl
  · have open_ : leavesOpen position t = t.isVar := by simp [leavesOpen, other]
    rw [Option.filter_some, open_]
    cases t <;> rfl

theorem patternOf_get (subject predicate object graph : Option Term) (position : Position) :
    (patternOf subject predicate object graph).get position =
      ((argument subject predicate object graph position).filter fun t => !leavesOpen position t).map .term := by
  cases position with
  | subject => exact fixed?_eq .subject nofun subject
  | predicate => exact fixed?_eq .predicate nofun predicate
  | object => exact fixed?_eq .object nofun object
  | graph =>
    rcases graph with _ | t
    · rfl
    · cases t <;> rfl

theorem patternOf_searches (subject predicate object graph : Option Term) :
    (patternOf subject predicate object graph).searches? = some [] := by
  have plain : ∀ position, ((patternOf subject predicate object graph).get position >>= Match.regex?) = none := by
    intro position
    rw [patternOf_get]
    cases (argument subject predicate object graph position).filter fun t => !leavesOpen position t <;> rfl
  have none_ : (patternOf subject predicate object graph).regexes = [] := by
    unfold Pattern.regexes
    rw [List.filterMap_eq_nil_iff]
    intro position _
    rw [plain]
    rfl
  rw [Pattern.searches?, none_]
  rfl

theorem match_eq_ok {σ : Type} {subject predicate object graph : Option Term} {stream : Stream} {s after : Store σ}
    (opened : Stream.match subject predicate object graph s = (.ok stream, after)) :
    stream = ⟨patternOf subject predicate object graph, false, []⟩ := by
  unfold Stream.match at opened
  rw [bind_apply, Store.requireOpen_apply] at opened
  cases isOpen : s.isOpen with
  | false =>
    rw [isOpen] at opened
    cases (Prod.mk.inj opened).1
  | true =>
    rw [isOpen] at opened
    exact (Except.ok.inj (Prod.mk.inj opened).1).symm

variable {σ : Type} [Backend σ]

theorem get_patternOf_error {subject predicate object graph : Option Term} {s : Store σ} {e : StoreError}
    (failed : (Store.get (patternOf subject predicate object graph) {} s).1 = .error e) :
    e = .notOpen ∨ ∃ failure, e = .sql failure := by
  unfold Store.get at failed
  rw [bind_apply, Store.requireOpen_apply] at failed
  cases opened : s.isOpen with
  | false =>
    rw [opened] at failed
    exact .inl (Except.error.inj failed).symm
  | true =>
    rw [opened, if_pos rfl] at failed
    dsimp only at failed
    rw [bind_apply, Store.searches_apply, patternOf_searches] at failed
    dsimp only at failed
    rw [if_pos (List.isEmpty_nil ..), bind_apply] at failed
    unfold Store.call at failed
    generalize Backend.query _ s.backend = answer at failed
    obtain ⟨answer, backend⟩ := answer
    cases answer with
    | ok rows => cases failed
    | error failure => exact .inr ⟨failure, (Except.error.inj failed).symm⟩

variable {p : Pattern} {s s' : Store σ} {quints : List Quint} {e : StoreError}

theorem start_apply (p : Pattern) (held : List Quint) (s : Store σ) :
    start (⟨p, false, held⟩, s) = match Store.get p {} s with
      | (.ok quints, s') => (.ok (), ⟨p, true, quints⟩, s')
      | (.error e, s') => (.error e, ⟨p, true, held⟩, s') := by
  unfold start
  rw [bind_apply, get_apply]
  dsimp only
  rcases Store.get p {} s with ⟨_ | _, s'⟩ <;> rfl

theorem next_started (p : Pattern) (quints : List Quint) (s : Store σ) :
    next (⟨p, true, quints⟩, s) = (.ok quints.head?, ⟨p, true, quints.tail⟩, s) := by
  cases quints <;> rfl

theorem rest_started (p : Pattern) (quints : List Quint) (s : Store σ) :
    rest (⟨p, true, quints⟩, s) = (.ok quints, ⟨p, true, []⟩, s) := rfl

theorem next_answered (answered : Store.get p {} s = (.ok quints, s')) :
    next (⟨p, false, []⟩, s) = next (⟨p, true, quints⟩, s') := by
  unfold next
  rw [bind_apply, start_apply, answered]
  rfl

theorem rest_answered (answered : Store.get p {} s = (.ok quints, s')) :
    rest (⟨p, false, []⟩, s) = rest (⟨p, true, quints⟩, s') := by
  unfold rest
  rw [bind_apply, start_apply, answered]
  rfl

theorem next_refused (refused : Store.get p {} s = (.error e, s')) :
    next (⟨p, false, []⟩, s) = (.error e, ⟨p, true, []⟩, s') := by
  unfold next
  rw [bind_apply, start_apply, refused]

theorem rest_refused (refused : Store.get p {} s = (.error e, s')) :
    rest (⟨p, false, []⟩, s) = (.error e, ⟨p, true, []⟩, s') := by
  unfold rest
  rw [bind_apply, start_apply, refused]

theorem rest_apply (p : Pattern) (s : Store σ) :
    rest (⟨p, false, []⟩, s) = ((Store.get p {} s).1, ⟨p, true, []⟩, (Store.get p {} s).2) := by
  rcases asked : Store.get p {} s with ⟨e | quints, after⟩
  · exact rest_refused asked
  · exact rest_answered asked

theorem rest_eq_next (stream : Stream) (s : Store σ) :
    rest (stream, s) = match next (stream, s) with
      | (.ok none, last) => (.ok [], last)
      | (.ok (some q), more) => ((rest more).1.map (q :: ·), (rest more).2)
      | (.error e, last) => (.error e, last) := by
  obtain ⟨p, started, held⟩ := stream
  cases started with
  | true => cases held <;> rfl
  | false =>
    unfold rest next
    rw [bind_apply, bind_apply, start_apply]
    rcases Store.get p {} s with ⟨e | quints, after⟩
    · rfl
    · cases quints <;> rfl

/-- What happens while a stream is in use: a pull, or anything that is done to the store by others. -/
inductive Turn (σ : Type) where
  | next
  | rest
  | elsewhere (change : Store σ → Store σ)

namespace Turn

def isPull : Turn σ → Bool
  | next | rest => true
  | elsewhere _ => false

def run : Turn σ → Pull σ (List Quint)
  | next => Option.toList <$> Stream.next
  | rest => Stream.rest
  | elsewhere change => fun (stream, s) => (.ok [], stream, change s)

theorem run_answered (answered : Store.get p {} s = (.ok quints, s')) {t : Turn σ} (pull : t.isPull = true) :
    t.run (⟨p, false, []⟩, s) = t.run (⟨p, true, quints⟩, s') := by
  cases t with
  | next => rw [run, map_apply, map_apply, next_answered answered]
  | rest => exact rest_answered answered
  | elsewhere change => cases pull

theorem run_refused (refused : Store.get p {} s = (.error e, s')) {t : Turn σ} (pull : t.isPull = true) :
    t.run (⟨p, false, []⟩, s) = (.error e, ⟨p, true, []⟩, s') := by
  cases t with
  | next =>
    rw [run, map_apply, next_refused refused]
    rfl
  | rest => exact rest_refused refused
  | elsewhere change => cases pull

theorem run_started (t : Turn σ) (p : Pattern) (held : List Quint) (s : Store σ) :
    ∃ given left after, t.run (⟨p, true, held⟩, s) = (.ok given, ⟨p, true, left⟩, after) ∧ given ++ left = held ∧
      (t = .rest → left = []) := by
  cases t with
  | next =>
    refine ⟨held.head?.toList, held.tail, s, ?_, ?_, nofun⟩
    · rw [run, map_apply, next_started]
      rfl
    · cases held <;> rfl
  | rest => exact ⟨held, [], s, rfl, List.append_nil _, fun _ => rfl⟩
  | elsewhere change => exact ⟨[], held, change s, rfl, rfl, nofun⟩

end Turn

def after (turns : List (Turn σ)) (state : Stream × Store σ) : Stream × Store σ :=
  turns.foldl (fun state t => (t.run state).2) state

def delivered : List (Turn σ) → Stream × Store σ → List Quint
  | [], _ => []
  | t :: turns, state => (t.run state).1.toOption.getD [] ++ delivered turns (t.run state).2

theorem after_append (turns more : List (Turn σ)) (state : Stream × Store σ) :
    after (turns ++ more) state = after more (after turns state) := List.foldl_append

theorem delivered_append (turns more : List (Turn σ)) (state : Stream × Store σ) :
    delivered (turns ++ more) state = delivered turns state ++ delivered more (after turns state) := by
  induction turns generalizing state with
  | nil => rfl
  | cons t turns ih =>
    show _ ++ delivered (turns ++ more) _ = _
    rw [ih, ← List.append_assoc]
    rfl

theorem after_quiet {turns : List (Turn σ)} (quiet : ∀ t ∈ turns, t.isPull = false) (stream : Stream) (s : Store σ) :
    (after turns (stream, s)).1 = stream ∧ delivered turns (stream, s) = [] := by
  induction turns generalizing s with
  | nil => exact ⟨rfl, rfl⟩
  | cons t turns ih =>
    obtain ⟨first, others⟩ := List.forall_mem_cons.1 quiet
    cases t with
    | elsewhere change => exact ih others (change s)
    | next => cases first
    | rest => cases first

/-- What was delivered and what is still held are together what was held at first. -/
theorem after_started (turns : List (Turn σ)) (p : Pattern) (held : List Quint) (s : Store σ) :
    ∃ left, (after turns (⟨p, true, held⟩, s)).1 = ⟨p, true, left⟩ ∧
      delivered turns (⟨p, true, held⟩, s) ++ left = held ∧ (.rest ∈ turns → left = []) := by
  induction turns generalizing held s with
  | nil => exact ⟨held, rfl, rfl, nofun⟩
  | cons t turns ih =>
    obtain ⟨given, kept, next, run, parts, emptied⟩ := t.run_started p held s
    obtain ⟨left, last, more, drained⟩ := ih kept next
    refine ⟨left, ?_, ?_, ?_⟩
    · show (after turns (t.run _).2).1 = _
      rw [run]
      exact last
    · rw [delivered, run]
      show given ++ delivered turns _ ++ left = held
      rw [List.append_assoc, more, parts]
    · intro mem
      rcases List.mem_cons.1 mem with here | later
      · rw [emptied here.symm, List.append_eq_nil_iff] at more
        exact more.2
      · exact drained later

/-- From a first pull that is answered on, a stream gives what was answered. -/
theorem after_answered (answered : Store.get p {} s = (.ok quints, s')) (turns : List (Turn σ))
    (pull : ∀ t ∈ turns.head?, t.isPull = true) :
    ∃ left, delivered turns (⟨p, false, []⟩, s) ++ left = quints ∧
      (next (after turns (⟨p, false, []⟩, s))).1 = .ok left.head? ∧
      (rest (after turns (⟨p, false, []⟩, s))).1 = .ok left ∧ (.rest ∈ turns → left = []) := by
  cases turns with
  | nil =>
    refine ⟨quints, rfl, ?_, ?_, nofun⟩
    · show (next (⟨p, false, []⟩, s)).1 = _
      rw [next_answered answered, next_started]
    · show (rest (⟨p, false, []⟩, s)).1 = _
      rw [rest_answered answered, rest_started]
  | cons t turns =>
    have same := Turn.run_answered answered (pull t rfl)
    have now : after (t :: turns) (⟨p, false, []⟩, s) = after (t :: turns) (⟨p, true, quints⟩, s') := by
      show after turns (t.run _).2 = _
      rw [same]
      rfl
    have given : delivered (t :: turns) (⟨p, false, []⟩, s) = delivered (t :: turns) (⟨p, true, quints⟩, s') := by
      rw [delivered, delivered, same]
    obtain ⟨left, last, parts, drained⟩ := after_started (t :: turns) p quints s'
    rw [now, given]
    generalize after (t :: turns) (⟨p, true, quints⟩, s') = state at last
    obtain ⟨stream, store⟩ := state
    cases last
    refine ⟨left, parts, ?_, ?_, drained⟩
    · rw [next_started]
    · rw [rest_started]

/-- From a first pull that is refused on, a stream is at its end. -/
theorem after_refused (refused : Store.get p {} s = (.error e, s')) {first : Turn σ} (pull : first.isPull = true)
    (later : List (Turn σ)) :
    (after (first :: later) (⟨p, false, []⟩, s)).1 = ⟨p, true, []⟩ ∧
      delivered (first :: later) (⟨p, false, []⟩, s) = [] := by
  obtain ⟨left, last, parts, -⟩ := after_started later p [] s'
  obtain ⟨none_, rfl⟩ := List.append_eq_nil_iff.1 parts
  constructor
  · show (after later (first.run _).2).1 = _
    rw [Turn.run_refused refused pull]
    exact last
  · rw [delivered, Turn.run_refused refused pull, none_]
    rfl

/-- A stream was opened for some arguments, and after some turns it is pulled for the first time. -/
structure FirstPull (subject predicate object graph : Option Term) (state : Stream × Store σ) (before : List (Turn σ))
    (first : Turn σ) : Prop where
  opened : ∃ store, Stream.match subject predicate object graph store = (.ok state.1, state.2)
  quiet : ∀ t ∈ before, t.isPull = false
  pull : first.isPull = true

variable {subject predicate object graph : Option Term} {state : Stream × Store σ} {before : List (Turn σ)}
  {first : Turn σ}

theorem FirstPull.reached (h : FirstPull subject predicate object graph state before first) :
    ∃ s, after before state = (⟨patternOf subject predicate object graph, false, []⟩, s) ∧
      delivered before state = [] := by
  obtain ⟨store, opened⟩ := h.opened
  obtain ⟨same, nothing⟩ := after_quiet h.quiet state.1 state.2
  refine ⟨(after before state).2, ?_, nothing⟩
  rw [← match_eq_ok opened]
  exact Prod.ext same rfl

/-- If the first pull is answered, the stream delivers the statements that a lookup has answered at that moment: at
any time the first of them have been delivered, a pull gives the next one and the others are left, until there is
none. The lookup is of the terms that were asked for, except variables and the default graph as a graph. -/
theorem delivers_snapshot (h : FirstPull subject predicate object graph state before first) (later : List (Turn σ))
    {given : List Quint} (works : (first.run (after before state)).1 = .ok given) :
    let p := patternOf subject predicate object graph
    (∀ position, p.get position =
      ((argument subject predicate object graph position).filter fun t => !leavesOpen position t).map .term) ∧
    ∃ quints, (Store.get p {} (after before state).2).1 = .ok quints ∧ ∀ n,
      let earlier := before ++ (first :: later).take n
      let sofar := delivered earlier state
      let now := after earlier state
      sofar <+: quints ∧ (next now).1 = .ok quints[sofar.length]? ∧
        (rest now).1 = .ok (quints.drop sofar.length) ∧ ((next now).1 = .ok none ↔ sofar = quints) ∧
        (.rest ∈ (first :: later).take n → sofar = quints) := by
  obtain ⟨s, reached, nothing⟩ := h.reached
  rw [reached] at works ⊢
  rcases asked : Store.get (patternOf subject predicate object graph) {} s with ⟨e | quints, s'⟩
  · rw [Turn.run_refused asked h.pull] at works
    cases works
  refine ⟨patternOf_get subject predicate object graph, quints, congrArg Prod.fst asked, fun n => ?_⟩
  have pulls : ∀ t ∈ ((first :: later).take n).head?, t.isPull = true := by
    intro t mem
    cases n with
    | zero => cases mem
    | succ n =>
      cases mem
      exact h.pull
  obtain ⟨left, parts, one, all, drained⟩ := after_answered asked _ pulls
  dsimp only
  rw [delivered_append, after_append, reached, nothing, List.nil_append, one, all]
  generalize delivered ((first :: later).take n) _ = sofar at parts
  subst parts
  refine ⟨List.prefix_append sofar left, ?_, ?_, ?_, ?_⟩
  · rw [List.getElem?_append_right (Nat.le_refl _), Nat.sub_self, List.head?_eq_getElem?]
  · rw [List.drop_left]
  · simp
  · intro mem
    rw [drained mem, List.append_nil]

def person (name : Text) : Quint where
  toQuad := ⟨.iri name, .iri "http://ex/type", .iri "http://ex/Person", .defaultGraph⟩
  vector := none

def storing (names : List Text) : Store Table := ⟨true, .holding true (names.map person)⟩

def everyone : Stream × Store Table :=
  (⟨patternOf none (some (.var "p")) none (some .defaultGraph), false, []⟩, storing ["http://ex/ann"])

theorem get_everyone (names : List Text) (kept : ∀ name ∈ names, Quint.ofRow (person name).toRow = person name) :
    Store.get everyone.1.pattern {} (storing names) = (.ok (names.map person), storing names) := by
  have all : ((names.map person).map Quint.toRow).map Quint.ofRow = names.map person := by
    rw [List.map_map, List.map_map]
    exact List.map_congr_left kept
  exact (Store.get_everything _).trans (congrArg (fun quints => (Except.ok quints, storing names)) all)

theorem firstPull_everyone (change : Store Table → Store Table) :
    FirstPull none (some (.var "p")) none (some .defaultGraph) everyone [.elsewhere change] .next where
  opened := ⟨storing ["http://ex/ann"], rfl⟩
  quiet t mem := by
    cases List.mem_singleton.1 mem
    rfl
  pull := rfl

def written : List (Turn Table) := [.elsewhere fun s => (Store.put (person "http://ex/bob") s).2]

def reopened : List (Turn Table) :=
  [.elsewhere fun s => (Store.clear s).2, .elsewhere fun s => (Store.close s).2,
    .elsewhere fun s => (Store.open s).2, .rest]

theorem delivers_snapshot_people :
    FirstPull none (some (.var "p")) none (some .defaultGraph) everyone written .next ∧
    (Turn.run .next (after written everyone)).1 = .ok [person "http://ex/ann"] ∧
    delivered (written ++ .next :: reopened) everyone = [person "http://ex/ann", person "http://ex/bob"] ∧
    (next (after (written ++ .next :: reopened) everyone)).1 = .ok none := by
  have first : FirstPull none (some (.var "p")) none (some .defaultGraph) everyone written .next :=
    firstPull_everyone _
  have reached : after written everyone = (everyone.1, storing ["http://ex/ann", "http://ex/bob"]) := rfl
  have stored := get_everyone ["http://ex/ann", "http://ex/bob"] (by decide +kernel)
  have works : (Turn.run .next (after written everyone)).1 = .ok [person "http://ex/ann"] := by
    rw [reached]
    show (Turn.run .next (⟨everyone.1.pattern, false, []⟩, _)).1 = _
    rw [Turn.run_answered stored rfl]
    rfl
  obtain ⟨-, quints, asked, given⟩ := delivers_snapshot first reopened works
  have snapshot : quints = [person "http://ex/ann", person "http://ex/bob"] :=
    Except.ok.inj (asked.symm.trans (congrArg Prod.fst stored))
  obtain ⟨-, -, -, ended, drained⟩ := given 5
  have all := drained (.tail _ (.tail _ (.tail _ (.tail _ (.head _)))))
  exact ⟨first, works, all.trans snapshot, ended.2 all⟩

/-- The first pull fails as the lookup does at that moment, because the store is not open or because its database
fails. After a failure every pull reports the end of the stream, which is what a lookup would give at that time only
if it answered nothing. So the end is reported when all is delivered that was answered, and when the first pull has
failed. -/
theorem reports_end_iff (h : FirstPull subject predicate object graph state before first) (later : List (Turn σ)) :
    let p := patternOf subject predicate object graph
    let asked := (Store.get p {} (after before state).2).1
    let now := after (before ++ first :: later) state
    let answer := (Store.get p {} now.2).1
    (∀ e, (first.run (after before state)).1 = .error e ↔ asked = .error e) ∧
    (∀ e, asked = .error e →
      (e = .notOpen ∨ ∃ failure, e = .sql failure) ∧ next now = (.ok none, now) ∧ rest now = (.ok [], now) ∧
        ((next now).1 = answer.map List.head? ↔ answer = .ok []) ∧ ((rest now).1 = answer ↔ answer = .ok [])) ∧
    ((next now).1 = .ok none ↔
      (∃ e, asked = .error e) ∨ asked = .ok (delivered (before ++ first :: later) state)) := by
  obtain ⟨s, reached, nothing⟩ := h.reached
  rw [after_append, delivered_append, nothing, List.nil_append, reached]
  dsimp only
  rcases asked : Store.get (patternOf subject predicate object graph) {} s with ⟨e | quints, s'⟩
  · have failing := get_patternOf_error (congrArg Prod.fst asked)
    obtain ⟨last, gone⟩ := after_refused asked h.pull later
    rw [Turn.run_refused asked h.pull]
    generalize after (first :: later) _ = state at last
    obtain ⟨stream, now⟩ := state
    cases last
    refine ⟨fun _ => Iff.rfl, ?_, ?_⟩
    · rintro _ ⟨⟩
      refine ⟨failing, next_started _ [] now, rest_started _ [] now, ?_, ?_⟩
      · rw [next_started]
        rcases (Store.get (patternOf subject predicate object graph) {} now).1 with failure | quints
        · simp [Except.map]
        · cases quints <;> simp [Except.map]
      · rw [rest_started]
        exact eq_comm
    · rw [next_started]
      exact iff_of_true rfl (.inl ⟨e, rfl⟩)
  · obtain ⟨left, parts, one, -, -⟩ := after_answered asked (first :: later) fun t mem => by
      cases mem
      exact h.pull
    obtain ⟨given, _, _, run, -, -⟩ := first.run_started (patternOf subject predicate object graph) quints s'
    rw [Turn.run_answered asked h.pull, run, one]
    refine ⟨fun _ => iff_of_false nofun nofun, nofun, ?_⟩
    generalize delivered (first :: later) _ = sofar at parts
    subst parts
    simp

theorem reports_end_iff_closed :
    let before : List (Turn Table) := [.elsewhere fun s => (Store.close s).2]
    let now := after (before ++ [.next, .elsewhere fun s => (Store.open s).2]) everyone
    FirstPull none (some (.var "p")) none (some .defaultGraph) everyone before .next ∧
    (Turn.run .next (after before everyone)).1 = .error .notOpen ∧
    next now = (.ok none, now) ∧ rest now = (.ok [], now) ∧
      (rest now).1 ≠ (Store.get everyone.1.pattern {} now.2).1 := by
  intro before now
  have first : FirstPull none (some (.var "p")) none (some .defaultGraph) everyone before .next :=
    firstPull_everyone _
  obtain ⟨fails, failed, -⟩ := reports_end_iff first [.elsewhere fun s => (Store.open s).2]
  obtain ⟨-, one, all, -, agree⟩ := failed .notOpen rfl
  have stored := get_everyone ["http://ex/ann"] (by decide +kernel)
  refine ⟨first, (fails .notOpen).2 rfl, one, all, fun same => ?_⟩
  have empty : [] = [person "http://ex/ann"] :=
    Except.ok.inj ((agree.1 same).symm.trans (congrArg Prod.fst stored))
  exact List.cons_ne_nil _ _ empty.symm

theorem end_after_failure :
    let failed := rest (everyone.1, (Store.close everyone.2).2)
    let reopened := (failed.2.1, (Store.open failed.2.2).2)
    failed.1 = .error .notOpen ∧ (rest reopened).1 = .ok [] ∧ (next reopened).1 = .ok none ∧
      (Store.get everyone.1.pattern {} reopened.2).1 = .ok [person "http://ex/ann"] := by
  have stored := get_everyone ["http://ex/ann"] (by decide +kernel)
  exact ⟨rfl, rfl, rfl, congrArg Prod.fst stored⟩

end Stream

end QuadStore
