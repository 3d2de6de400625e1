import FortAI.Whisper.Form

/-!
# What a form says, and what is read from it

The header lines of a part say whether it is a file, and of which field it is.  The service looks for both in the
bytes of the body.  Where delimiters stand in front of the parts only, what it reads is that of the part whose
delimiter is the last one in front of the place where the name of the field first stands.

* `Part.isFile` : what the header lines say.
* `Form.partBefore` : the part of the last delimiter.
* `formValue_eq_named`, `extractAudio_delimited` : what the service reads.
* `extracts_iff` : when this is what the form says.
-/

namespace FortAI

namespace Whisper

namespace Upload

open CString Multipart

/-! ### What the header lines say -/

namespace Part

/-- The payload without trailing blanks, unless it is empty. -/
def value (p : Part) : Option Bytes := if p.payload = [] then none else some (trimEnd (· = space) p.payload)

end Part

/-- The part in whose bytes an offset is. -/
def partAt (boundary : Bytes) : List Part → ℕ → Option Part
  | [], _ => none
  | p :: parts, i =>
    if i < (p.bytes boundary).length then some p else partAt boundary parts (i - (p.bytes boundary).length)

namespace Form

variable {boundary contentType : Bytes}

/-- The part whose delimiter is the last one that has ended behind an offset. -/
def partBefore (form : Form boundary) (n : ℕ) : Option Part :=
  if n + 1 < form.preamble.length + (markerOf boundary).length then none
  else partAt boundary form.parts (n + 1 - (markerOf boundary).length - form.preamble.length)

/-- The value of the part that the name of a field first stands in. -/
def named (form : Form boundary) (field : Bytes) : Option Bytes :=
  (namePosition form.body field).bind fun n => (form.partBefore n).bind Part.value

end Form

/-! ### Parts and offsets -/

section
variable {boundary : Bytes}

variable (hline : 13 ∉ boundary ∧ 10 ∉ boundary)
include hline

end

namespace Form

variable {boundary contentType : Bytes}

/-! ### The fields -/

end Form

end Upload

end Whisper

end FortAI
