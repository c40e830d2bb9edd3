import ActionUnits.Layout.Doc

/-!
# Measured documents

A document is prepared for writing in two passes. The first settles which places and boxes remain:
an empty box is dropped, and so is a place that asks for something to follow it in its box. The
second measures, from the end, how much text depends on each decision: for a place the text up to
the next place of its own box or of an enclosing one, for a box the text up to the next place after
it.
-/

namespace ActionUnits.Layout

/-- A part of a settled document. -/
inductive Piece where
  | text (text : String) (width : Nat)
  | line (place : Place)
  /-- A dropped place. It still ends what the places before it depend on. -/
  | cut
  | opened (offset : Int) (consistent : Bool)
  | closed

/-- What is settled of a document. -/
structure Settled where
  /-- The pieces, the last one first. -/
  pieces : List Piece := []
  /-- The width of the pieces on one line. -/
  width : Nat := 0
  /-- The widths at which the open boxes start, the innermost first. -/
  starts : List Nat := []

namespace Settled

def push (s : Settled) (piece : Piece) (width : Nat) : Settled :=
  { s with pieces := piece :: s.pieces, width := s.width + width }

def openBox (s : Settled) (offset : Int) (consistent : Bool) : Settled :=
  { s with pieces := .opened offset consistent :: s.pieces, starts := s.width :: s.starts }

def closeBox (s : Settled) : Settled :=
  let starts := s.starts.tail
  match s.pieces with
  | .line place :: .opened _ _ :: pieces => ⟨pieces, s.width - place.blank, starts⟩
  | .line place :: pieces =>
    if place.ifNonempty then ⟨.closed :: .cut :: pieces, s.width - place.blank, starts⟩
    else ⟨.closed :: .line place :: pieces, s.width, starts⟩
  | pieces => ⟨.closed :: pieces, s.width, starts⟩

/-- Adds to the offset of the last place. -/
def shift (s : Settled) (offset : Int) : Settled :=
  match s.pieces with
  | .line place :: pieces =>
    { s with pieces := .line { place with offset := place.offset + offset } :: pieces }
  | _ => s

def step (s : Settled) : Command → Settled
  | .text text => s.push (.text text text.utf8ByteSize) text.utf8ByteSize
  | .line place => s.push (.line place) place.blank
  | .openBox offset consistent => s.openBox offset consistent
  | .closeBox => s.closeBox
  | .closeWithin width =>
    if s.width - s.starts.headD 0 > width then (s.push (.text "" infinite) infinite).closeBox
    else s.closeBox
  | .shift offset => s.shift offset
  | .unprintable => s

def ofDoc (doc : Doc) : Settled :=
  doc.foldl step {}

end Settled

/-- A piece with the width of the text that depends on it. -/
inductive Measured where
  | text (text : String)
  | line (place : Place) (size : Nat)
  | opened (offset : Int) (consistent : Bool) (size : Nat)
  | closed

/-- What is measured of a document, from its end. -/
structure Measurement where
  /-- The measured pieces in order. -/
  pieces : List Measured := []
  /-- Their width on one line. -/
  width : Nat := 0
  /-- That width from the next place on, of the current box or an enclosing one. -/
  next : Nat := 0
  /-- The same for the enclosing boxes, the innermost first. -/
  outer : List Nat := []

namespace Measurement

/-- Measures the piece before the ones already measured. -/
def step (m : Measurement) : Piece → Measurement
  | .text text width => { m with pieces := .text text :: m.pieces, width := m.width + width }
  | .line place =>
    let width := m.width + place.blank
    { m with pieces := .line place (width - m.next) :: m.pieces, width := width, next := width }
  | .cut => { m with next := m.width }
  | .closed => { m with pieces := .closed :: m.pieces, outer := m.next :: m.outer }
  | .opened offset consistent =>
    let next := m.outer.headD 0
    { m with
      pieces := .opened offset consistent (m.width - next) :: m.pieces
      next := next
      outer := m.outer.tail }

end Measurement

def Doc.measure (doc : Doc) : List Measured :=
  ((Settled.ofDoc doc).pieces.foldl Measurement.step {}).pieces

end ActionUnits.Layout
