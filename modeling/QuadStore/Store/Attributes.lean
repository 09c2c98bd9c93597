import QuadStore.Store

namespace QuadStore.Attribute

def values (found : List Attribute) (subject predicate : Term) : List Term :=
  (found.filter fun a => a.subject = subject && a.predicate = predicate).map (·.object)

def ordered (ts : List Term) : List Term := ts.eraseDups.mergeSort Term.le

def subjects (found : List Attribute) : List Term := ordered (found.map (·.subject))

def predicates (found : List Attribute) (subject : Term) : List Term :=
  ordered ((found.filter fun a => a.subject = subject).map (·.predicate))

def grouped (found : List Attribute) : List (Term × List (Term × List Term)) :=
  (subjects found).map fun s =>
    (s, (predicates found s).map fun p => (p, values found s p))

end QuadStore.Attribute
