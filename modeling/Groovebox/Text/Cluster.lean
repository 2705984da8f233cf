import Groovebox.Text.ClusterClass

/-! Clusters: the runs of characters that a reader takes for one character each. -/

namespace Groovebox.Text

def isLinker (c : Char) : Bool := isWithin linkerRanges c

/-- Linkers and the marks that may stand beside them, which hide no consonant. The
breaker of joins U+200C is none. -/
def isConjoining (c : Char) : Bool :=
  clusterClass c = .joiner || (clusterClass c = .extender && c ≠ '\u200c')

/-- A consonant goes on from an earlier one behind which a linker stands. The text runs
back from its last character. -/
def isConjoined (before : List Char) : Bool :=
  let marks := before.takeWhile isConjoining
  marks.any isLinker &&
    (before.drop marks.length).head?.any fun c => clusterClass c = .consonant

def isTied : List Char → Bool
  | [] => false
  | last :: before =>
    clusterClass last = .joiner &&
      (before.dropWhile fun c => clusterClass c = .extender).head?.any fun c =>
        clusterClass c = .pictograph

def isHalfFlag (before : List Char) : Bool :=
  (before.takeWhile fun c => clusterClass c = .flagLetter).length % 2 = 1

/-- The parts of a syllable follow each other in this order. -/
def isSyllable (last next : ClusterClass) : Bool :=
  match last, next with
  | .firstJamo, .firstJamo | .firstJamo, .middleJamo => true
  | .firstJamo, .openSyllable | .firstJamo, .closedSyllable => true
  | .openSyllable, .middleJamo | .openSyllable, .lastJamo => true
  | .middleJamo, .middleJamo | .middleJamo, .lastJamo => true
  | .closedSyllable, .lastJamo | .lastJamo, .lastJamo => true
  | _, _ => false

/-- A character goes on with the cluster that ends in `last`, with `before` in front of
it from the back. -/
def goesOn (last : Char) (before : List Char) (c : Char) : Bool :=
  if last = '\x0d' && c = '\n' then true
  else
    match clusterClass last, clusterClass c with
    | .control, _ | _, .control => false
    | _, .extender | _, .joiner | _, .spacing => true
    | .leader, _ => true
    | _, .consonant => isConjoined (last :: before)
    | _, .pictograph => isTied (last :: before)
    | _, .flagLetter => isHalfFlag (last :: before)
    | k, next => isSyllable k next

/-- The clusters of a text behind the start of the first one, which is given from the
back. -/
def clustersFrom (last : Char) (before : List Char) : List Char → List (List Char)
  | [] => [(last :: before).reverse]
  | c :: rest =>
    if goesOn last before c then clustersFrom c (last :: before) rest
    else (last :: before).reverse :: clustersFrom c [] rest

def clusters : List Char → List (List Char)
  | [] => []
  | c :: rest => clustersFrom c [] rest

theorem flatten_clustersFrom (last : Char) (before text : List Char) :
    (clustersFrom last before text).flatten = (last :: before).reverse ++ text := by
  induction text generalizing last before with
  | nil => simp [clustersFrom]
  | cons c rest ih =>
    rw [clustersFrom]
    split <;> simp [ih]

theorem flatten_clusters (text : List Char) : (clusters text).flatten = text := by
  cases text with
  | nil => rfl
  | cons c rest => simp [clusters, flatten_clustersFrom]

end Groovebox.Text
