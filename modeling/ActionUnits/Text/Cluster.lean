import ActionUnits.Text.Table.Clusters
import ActionUnits.Text.Visible

/-!
# Clusters

The extended grapheme clusters of a text: what a reader sees as one character. A text is cut before
each character that does not join the cluster in front of it, and whether it joins depends on how
that cluster ends.
-/

namespace ActionUnits.Text

/-- What a character is to the clusters of a text. -/
inductive BreakClass where
  | carriageReturn
  | lineFeed
  | control
  /-- A mark that joins whatever is in front of it. -/
  | extend
  /-- The joiner of pictographs. -/
  | joiner
  /-- One half of a flag. -/
  | regional
  /-- A mark that joins whatever comes after it. -/
  | prepend
  | spacing
  /-- A consonant at the start of a Hangul syllable. -/
  | leading
  | vowel
  /-- A consonant at the end of a Hangul syllable. -/
  | trailing
  /-- A Hangul syllable that ends in its vowel. -/
  | openSyllable
  | closedSyllable
  | other
deriving DecidableEq

/-- Whether a code point lies in a range. -/
def inRange (first last code : Nat) : Bool :=
  first ≤ code && code ≤ last

/-- The class of a code point beyond ASCII that no table lists. -/
def hangulClass (code : Nat) : BreakClass :=
  if inRange 0xac00 0xd7a3 code then
    if (code - 0xac00) % 28 == 0 then .openSyllable else .closedSyllable
  else if inRange 0x1100 0x115f code || inRange 0xa960 0xa97c code then .leading
  else if inRange 0x1160 0x11a7 code || inRange 0xd7b0 0xd7c6 code || code == 0x16d63 ||
    inRange 0x16d67 0x16d6a code then .vowel
  else if inRange 0x11a8 0x11ff code || inRange 0xd7cb 0xd7fb code then .trailing
  else .other

def breakClass (c : Char) : BreakClass :=
  let code := c.toNat
  if code < 0x80 then
    if c == '\r' then .carriageReturn
    else if c == '\n' then .lineFeed
    else if code < 0x20 || code == 0x7f then .control
    else .other
  else if code == 0x200d then .joiner
  else if isExtending c || inRange 0x1f3fb 0x1f3ff code then .extend
  else if Table.spacingMark.covers code then .spacing
  else if Table.separateControl.covers code then .control
  else if Table.prepended.covers code then .prepend
  else if inRange 0x1f1e6 0x1f1ff code then .regional
  else hangulClass code

/-- Whether a character is a pictograph. -/
def isPictograph (c : Char) : Bool :=
  0x80 ≤ c.toNat && Table.pictographic.covers c.toNat

/-- Whether a character is a consonant that conjuncts are made of. -/
def isConjunctConsonant (c : Char) : Bool :=
  0x80 ≤ c.toNat && Table.conjunctConsonant.covers c.toNat

/-- Whether a character links two consonants. -/
def isConjunctLinker (c : Char) : Bool :=
  0x80 ≤ c.toNat && Table.conjunctLinker.covers c.toNat

/-- Whether a character may stand between a consonant and what links it to the next one. -/
def isConjunctMark (c : Char) : Bool :=
  (breakClass c == .extend && c.toNat != 0x200c) || breakClass c == .joiner

/-- How a cluster ends. -/
structure ClusterEnd where
  /-- The class of the last character. -/
  last : BreakClass
  /-- Whether the last character is the first half of a flag. -/
  halfFlag : Bool
  /-- Whether the last characters are a pictograph and marks on it, perhaps with a joiner. -/
  pictograph : Bool
  /-- Whether the last characters are a consonant and marks on it, and if so whether one of them
  links it to another one. -/
  linked : Option Bool

namespace ClusterEnd

def single (c : Char) : ClusterEnd where
  last := breakClass c
  halfFlag := breakClass c == .regional
  pictograph := isPictograph c
  linked := if isConjunctConsonant c then some false else none

def add (e : ClusterEnd) (c : Char) : ClusterEnd where
  last := breakClass c
  halfFlag := breakClass c == .regional && !e.halfFlag
  pictograph :=
    isPictograph c ||
      (e.pictograph && e.last != .joiner && (breakClass c == .extend || breakClass c == .joiner))
  linked :=
    if isConjunctConsonant c then some false
    else e.linked.bind fun linked =>
      if isConjunctLinker c then some true else if isConjunctMark c then some linked else none

/-- Whether a character joins the cluster in front of it. -/
def joins (e : ClusterEnd) (c : Char) : Bool :=
  match e.last, breakClass c with
  | .carriageReturn, .lineFeed => true
  | .carriageReturn, _ | .lineFeed, _ | .control, _ => false
  | _, .carriageReturn | _, .lineFeed | _, .control => false
  | .leading, .leading | .leading, .vowel | .leading, .openSyllable | .leading, .closedSyllable =>
    true
  | .openSyllable, .vowel | .openSyllable, .trailing | .vowel, .vowel | .vowel, .trailing => true
  | .closedSyllable, .trailing | .trailing, .trailing => true
  | _, .extend | _, .joiner | _, .spacing | .prepend, _ => true
  | .joiner, _ => (e.pictograph && isPictograph c) || (e.linked == some true && isConjunctConsonant c)
  | .regional, .regional => e.halfFlag
  | _, _ => e.linked == some true && isConjunctConsonant c

end ClusterEnd

/-- A character together with the marks that extend it. -/
abbrev Cluster := List Char

/-- Puts a cluster in front of the first word. -/
def pushCluster (k : Cluster) : List (List Char) → List (List Char)
  | [] => [k]
  | word :: words => (k ++ word) :: words

/-- What is left of a cluster that ends in the given way, and the clusters after it. -/
def clustersAfter : ClusterEnd → List Char → List Cluster
  | _, [] => [[]]
  | e, c :: cs =>
    if e.joins c then pushCluster [c] (clustersAfter (e.add c) cs)
    else [] :: pushCluster [c] (clustersAfter (.single c) cs)

def clusters : List Char → List Cluster
  | [] => []
  | c :: cs => pushCluster [c] (clustersAfter (.single c) cs)

end ActionUnits.Text
