import QuadStore.Sql.Connection

namespace QuadStore.Sql

structure Table where
  rows : List Row
  /-- Subjects that no row may be added with. -/
  rejected : List Text
  /-- Subjects whose rows may not be deleted. -/
  guarded : List Text
  /-- Whether the contents outlive the connection. -/
  lasting : Bool

namespace Table

def empty (lasting : Bool) : Table := ⟨[], [], [], lasting⟩

def satisfies (r : Row) (clauses : List Clause) : Bool :=
  clauses.all fun c => c.condition.holds (r.get c.position)

def selected (t : Table) (clauses : List Clause) : List Row :=
  t.rows.filter fun r => satisfies r clauses

def rowLe : List Position → Row → Row → Bool
  | [], _, _ => true
  | p :: ps, a, b => if a.get p = b.get p then rowLe ps a b else a.get p < b.get p

def sorted {α : Type} (options : Options) (row : α → Row) (xs : List α) : List α :=
  xs.mergeSort fun a b =>
    if options.reverse then rowLe options.order (row b) (row a)
    else rowLe options.order (row a) (row b)

def slice {α : Type} (options : Options) (xs : List α) : List α :=
  let rest := xs.drop (sqlInteger (options.offset.getD 0))
  match options.limit with
  | some n => rest.take (sqlInteger n)
  | none => rest

def cell (r : Row) : Column → Option Text
  | .position p => some (r.get p)
  | .vector => r.vector

def record (columns : List Column) (r : Row) : Record := columns.map fun c => (c.name, cell r c)

def counted (n : Nat) : List Record := [[("count", some (Text.ofNat n))]]

/-- One row for each pattern of a join; the first one decides what the others must share. -/
structure Joined where
  first : Row
  more : List Row

namespace Joined

def agrees (on : Position) (j : Joined) (r : Row) : Bool :=
  j.first.get on = r.get on && (on = .graph || j.first.graph = r.graph)

def row? (j : Joined) (i : Nat) : Option Row := (j.first :: j.more)[i]?

def record (j : Joined) (join : Join) : Record :=
  ("join_value", some (j.first.get join.on)) ::
    join.projections.map fun p => (p.name, (j.row? p.pattern).map (·.get p.position))

end Joined

def joined (t : Table) (on : Position) : List (List Clause) → List Joined
  | [] => []
  | first :: rest =>
    rest.foldl
      (fun partials clauses =>
        let candidates := t.selected clauses
        partials.flatMap fun j =>
          (candidates.filter (j.agrees on)).map fun r => { j with more := j.more ++ [r] })
      ((t.selected first).map fun r => ⟨r, []⟩)

def answer (t : Table) : Query → List Record
  | .select columns clauses options =>
    (slice options (sorted options id (t.selected clauses))).map (record columns)
  | .count clauses => counted (t.selected clauses).length
  | .countVectors => counted (t.rows.filter (·.vector.isSome)).length
  | .countGraphs => counted (t.rows.map (·.graph)).eraseDups.length
  | .join j options =>
    (slice options (sorted options Joined.first (t.joined j.on j.patterns))).map (·.record j)

/-- The table after a command, and the number of rows that it has touched. -/
def apply (t : Table) : Command → Except Failure (Table × Nat)
  | .upsert r =>
    if t.rejected.contains r.subject then .error .rejectedSubject
    else .ok ({ t with rows := t.rows.filter (fun s => !s.sameKey r) ++ [r] }, 1)
  | .setVector payload clauses =>
    let rows := t.rows.map fun r =>
      if satisfies r clauses then { r with vector := some payload } else r
    .ok ({ t with rows }, (t.selected clauses).length)
  | .delete clauses =>
    let gone := t.selected clauses
    if gone.any fun r => t.guarded.contains r.subject then .error .protectedSubject
    else .ok ({ t with rows := t.rows.filter fun r => !satisfies r clauses }, gone.length)

def connect (t : Table) : Table := if t.lasting then t else empty false

end Table

namespace Connection

def query (q : Query) : Call (Connection Table) (List Record) :=
  statement fun t => .ok (t.answer q, t)

def execute (c : Command) : Call (Connection Table) Nat :=
  statement fun t => (t.apply c).map fun (after, n) => (n, after)

def transact (commands : List Command) : Call (Connection Table) Unit :=
  inTransaction (fun _ => .ok ()) (commands.forM fun c => discard (execute c))

instance : Backend (Connection Table) where
  dialect _ := .sqlite
  connect c := { c with data := c.data.connect, saved := none }
  disconnect c := c
  define _ := statement fun t => .ok ((), t)
  query := query
  execute := execute
  transact := transact

end Connection

instance : Backend Table where
  dialect _ := .sqlite
  connect := Table.connect
  disconnect t := t
  define d := Connection.plainly (Backend.define d)
  query q := Connection.plainly (Connection.query q)
  execute c := Connection.plainly (Connection.execute c)
  transact commands := Connection.plainly (Connection.transact commands)

end QuadStore.Sql
