import ActionUnits.Layout.Measure

/-!
# Writing documents

Decides, from left to right, which boxes are broken and which places end a line.
-/

namespace ActionUnits.Layout

/-- The columns of a line. -/
def margin : Int := 89

/-- The columns that a line has at least, however far it is indented. -/
def leastSpace : Int := 60

/-- An open box while a document is written. -/
inductive Frame where
  /-- A box that is on one line. -/
  | fits
  /-- A broken box, with the indentation outside of it. -/
  | broken (outside : Int) (consistent : Bool)

/-- What is written of a document. -/
structure Written where
  text : String := ""
  /-- The columns left on the line. -/
  space : Int := margin
  /-- The indentation of further lines. -/
  indent : Int := 0
  /-- Spaces to be written before the next text. -/
  pending : Nat := 0
  /-- The open boxes, the innermost first. -/
  frames : List Frame := []

namespace Written

/-- Writes the pending spaces. -/
def flush (w : Written) : Written :=
  { w with text := w.text ++ String.ofList (List.replicate w.pending ' '), pending := 0 }

def write (w : Written) (text : String) : Written :=
  let w := w.flush
  { w with text := w.text ++ text, space := w.space - text.utf8ByteSize }

/-- Whether a place does not end the line. -/
def fits (w : Written) (place : Place) (size : Nat) : Bool :=
  place.never ||
    match w.frames.headD (.broken 0 false) with
    | .fits => true
    | .broken _ true => false
    | .broken _ false => size ≤ w.space

/-- Goes on on the same line. -/
def stay (w : Written) (place : Place) : Written :=
  let w := { w with pending := w.pending + place.blank, space := w.space - place.blank }
  match place.unbroken with
  | some char => { w with text := w.text.push char, space := w.space - char.utf8Size }
  | none => w

def endLine (w : Written) (place : Place) : Written :=
  let w := match place.before with
    | some char => { w.flush with text := w.flush.text.push char }
    | none => w
  let indent := w.indent + place.offset
  let w := { w with
    text := w.text.push '\n'
    pending := indent.toNat
    space := max (margin - indent) leastSpace }
  if place.after.isEmpty then w else w.write place.after

def openBox (w : Written) (offset : Int) (consistent : Bool) (size : Nat) : Written :=
  if (size : Int) ≤ w.space then { w with frames := .fits :: w.frames }
  else
    { w with
      frames := .broken w.indent consistent :: w.frames
      indent := w.indent + offset }

def closeBox (w : Written) : Written :=
  match w.frames with
  | .broken outside _ :: frames => { w with frames := frames, indent := outside }
  | _ :: frames => { w with frames := frames }
  | [] => w

def step (w : Written) : Measured → Written
  | .text text => w.write text
  | .line place size => if w.fits place size then w.stay place else w.endLine place
  | .opened offset consistent size => w.openBox offset consistent size
  | .closed => w.closeBox

end Written

/-- The text of a document, unless a part of it has no rule. -/
def Doc.render? (doc : Doc) : Option String :=
  if doc.isPrintable then some (doc.measure.foldl Written.step {}).text else none

end ActionUnits.Layout
