import ActionUnits.Text.Casing
import ActionUnits.Text.Cluster

/-!
# Snake case

A name is cut into words, each word is written in lower case, and the words are joined by
underscores. Words end at separators, which are dropped, at changes between lower case, upper case
and digits, and before the last capital of an acronym. Empty words are kept.
-/

namespace ActionUnits.Text

namespace Cluster

/-- A cluster that has case and is its own upper-case form. -/
def isUpper (k : Cluster) : Bool :=
  upper k != lower k && k == upper k

/-- A cluster that has case and is its own lower-case form. -/
def isLower (k : Cluster) : Bool :=
  upper k != lower k && k == lower k

def isDigit (k : Cluster) : Bool :=
  k.all Char.isDigit

def isSeparator (k : Cluster) : Bool :=
  k == ['_'] || k == ['-'] || k == [' ']

end Cluster

/-- Whether a word ends between two neighbouring clusters, given the cluster after them. -/
def endsWord (a b : Cluster) (next : Option Cluster) : Bool :=
  (a.isLower && b.isUpper) ||
    (a.isUpper && b.isUpper && next.any Cluster.isLower) ||
    ((a.isLower || a.isUpper) && b.isDigit) ||
    (a.isDigit && (b.isLower || b.isUpper))

/-- The words of a sequence of clusters; there is always at least one. -/
def wordsOf : List Cluster → List (List Char)
  | [] => [[]]
  | [a] => if a.isSeparator then [[], []] else [a]
  | a :: b :: rest =>
    if a.isSeparator then [] :: wordsOf (b :: rest)
    else if endsWord a b rest.head? then a :: wordsOf (b :: rest)
    else pushCluster a (wordsOf (b :: rest))

/-- The snake-case form of a name. -/
def snake (cs : List Char) : List Char :=
  ['_'].intercalate ((wordsOf (clusters cs)).map lower)

end ActionUnits.Text
