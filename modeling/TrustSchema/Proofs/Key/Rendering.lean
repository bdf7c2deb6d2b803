import TrustSchema.Command.Run
import TrustSchema.Proofs.Codec.Base64
import TrustSchema.Proofs.Key.Canonical

/-!
The text of a key is the base64 text of its canonical octets in full lines, but for the last one,
which is shorter or full but never empty. However such a text is spaced, it is read back as the key.
-/

namespace TrustSchema.Key

open Codec Command Text

/-! ### Lines -/

/-- Texts in lines: all of the given width, but for the last one, which has at least one character
and no more than the others. The first text is without line ends and the second one with them. -/
inductive Lined (width : Nat) : Text → Text → Prop
  | last {line} : line ≠ [] → line.length ≤ width → Lined width line (line ++ ['\n'])
  | full {line text lines} : line.length = width → Lined width text lines →
      Lined width (line ++ text) (line ++ '\n' :: lines)

theorem lined_wrap {width : Nat} (positive : 0 < width) {text : Text} (nonempty : text ≠ []) :
    Lined width text (Blob.wrap width text) := by
  fun_induction Blob.wrap width text with
  | case1 text short =>
    exact .last nonempty (short.resolve_right (Nat.ne_of_gt positive))
  | case2 text long ih =>
    rw [not_or, Nat.not_le] at long
    have more : text.drop width ≠ [] := by
      rw [ne_eq, List.drop_eq_nil_iff]
      omega
    have lines := Lined.full (List.length_take_of_le (Nat.le_of_lt long.1)) (ih more)
    rwa [List.take_append_drop] at lines

theorem Lined.exists_lines {width : Nat} {text lines : Text} (lined : Lined width text lines) :
    ∃ full last, lines = (full ++ [last]).flatMap (· ++ ['\n']) ∧ full.flatten ++ last = text ∧
      (∀ line ∈ full, line.length = width) ∧ 1 ≤ last.length ∧ last.length ≤ width := by
  induction lined with
  | @last line nonempty short =>
    exact ⟨[], line, by simp, rfl, by simp, List.length_pos_iff.mpr nonempty, short⟩
  | @full line text lines width _ ih =>
    obtain ⟨full, last, rfl, rfl, widths, least, most⟩ := ih
    refine ⟨line :: full, last, by simp, by simp, ?_, least, most⟩
    rintro other (_ | ⟨_, member⟩)
    · exact width
    · exact widths other member

/-! ### White space -/

/-- The white space of ASCII. -/
def whiteSpace : Bytes := [0x09, 0x0A, 0x0C, 0x0D, 0x20]

theorem isBlankOctet_iff (b : UInt8) : isBlankOctet b = true ↔ b ∈ whiteSpace := by
  simp only [isBlankOctet, whiteSpace, Bool.or_eq_true, decide_eq_true_eq, List.mem_cons,
    List.not_mem_nil, or_false]
  tauto

/-- A text after white space is put into it or taken out of it, one octet after another. -/
inductive Respaced (text : Bytes) : Bytes → Prop
  | same : Respaced text text
  | insert {before after b} : b ∈ whiteSpace → Respaced text (before ++ after) →
      Respaced text (before ++ b :: after)
  | remove {before after b} : b ∈ whiteSpace → Respaced text (before ++ b :: after) →
      Respaced text (before ++ after)

/-- The octets of a text that are not white space. -/
def solid (text : Bytes) : Bytes :=
  text.filter fun b => !isBlankOctet b

theorem solid_append (front back : Bytes) : solid (front ++ back) = solid front ++ solid back :=
  List.filter_append ..

theorem solid_blank {b : UInt8} (blank : b ∈ whiteSpace) (rest : Bytes) :
    solid (b :: rest) = solid rest := by
  rw [← isBlankOctet_iff] at blank
  exact List.filter_cons_of_neg (by simp [blank])

theorem Respaced.solid_eq {text other : Bytes} (respaced : Respaced text other) :
    solid other = solid text := by
  induction respaced with
  | same => rfl
  | insert blank _ ih =>
    rw [← ih, solid_append, solid_append, solid_blank blank]
  | remove blank _ ih =>
    rw [← ih, solid_append, solid_append, solid_blank blank]

theorem solid_lined {width : Nat} {text lines : Text} (lined : Lined width text lines) :
    solid (toUtf8 lines) = solid (toUtf8 text) := by
  have lineEnd (rest : Text) : solid (toUtf8 ('\n' :: rest)) = solid (toUtf8 rest) :=
    solid_blank (by decide) _
  induction lined with
  | @last line =>
    rw [toUtf8_append, solid_append, lineEnd]
    exact List.append_nil _
  | full _ _ ih => rw [toUtf8_append, solid_append, lineEnd, ih, toUtf8_append, solid_append]

theorem not_blank_of_mem {bytes : Bytes} {b : UInt8}
    (member : b ∈ toUtf8 (Base64.encode bytes)) : b ∉ whiteSpace := by
  have apart : ∀ w ∈ whiteSpace, ¬((Base64.value? w).isSome ∨ w = Base64.padding) := by
    simp only [whiteSpace, List.mem_cons, List.not_mem_nil, or_false]
    rintro w (rfl | rfl | rfl | rfl | rfl) <;> decide
  exact fun blank => apart b blank (Base64.value?_isSome_of_mem member)

theorem solid_encode (bytes : Bytes) :
    solid (toUtf8 (Base64.encode bytes)) = toUtf8 (Base64.encode bytes) := by
  apply List.filter_eq_self.mpr
  intro b member
  have solid := not_blank_of_mem member
  rw [← isBlankOctet_iff] at solid
  simp [solid]

theorem not_mem_encode (bytes : Bytes) : '\n' ∉ Base64.encode bytes := by
  intro member
  have octet : 0x0A ∈ toUtf8 (Base64.encode bytes) := List.mem_flatMap.mpr ⟨_, member, by decide⟩
  exact not_blank_of_mem octet (by decide)

/-! ### Keys -/

/-- The text of a key is in lines of 64 characters, of which only the last may be shorter, and none
is empty. Without the line ends it is the base64 text of the canonical octets. However white space
is put into it or taken out of it, those octets are what is read from it, and they are decoded as
the key. -/
theorem render_readable {raw : Bytes} {key : Blob} (decoded : Blob.decode raw = .ok key) :
    (∃ full last, key.render = (full ++ [last]).flatMap (· ++ ['\n']) ∧
      full.flatten ++ last = Base64.encode key.encode ∧ '\n' ∉ full.flatten ++ last ∧
      (∀ line ∈ full, line.length = 64) ∧ 1 ≤ last.length ∧ last.length ≤ 64) ∧
    ∀ content, Respaced (toUtf8 key.render) content →
      decodeBase64Text content = .ok key.encode ∧ Blob.decode key.encode = .ok key ∧
        keyReport true content = .ok (.of key) := by
  have again := decode_encode decoded
  -- No octets are no key, so that there is a line at all.
  have nonempty : Base64.encode key.encode ≠ [] := by
    have some : key.encode ≠ [] := by
      intro nothing
      rw [nothing] at again
      cases again
    have octets := List.length_pos_iff.mpr some
    apply List.ne_nil_of_length_pos
    rw [Base64.length_encode]
    omega
  have lined : Lined 64 (Base64.encode key.encode) key.render := lined_wrap (by decide) nonempty
  constructor
  · obtain ⟨full, last, lines, text, widths⟩ := lined.exists_lines
    exact ⟨full, last, lines, text, text ▸ not_mem_encode key.encode, widths⟩
  · intro content respaced
    have read : decodeBase64Text content = .ok key.encode := by
      have same : solid content = toUtf8 (Base64.encode key.encode) := by
        rw [respaced.solid_eq, solid_lined lined, solid_encode]
      -- White space is dropped before the text is read.
      rw [decodeBase64Text]
      change (Base64.decode (solid content)).mapError _ = _
      rw [same, Base64.decode_encode]
      rfl
    refine ⟨read, again, ?_⟩
    simp only [keyReport, if_true, read, bind, Except.bind, again]
    rfl

/-- A key of 48 octets, whose base64 text fills a line. -/
def lineKey : Bytes :=
  [0x30, 0x2E, 0x30, 0x0D, 0x06, 0x09] ++ rsaOctets ++
    [0x05, 0x00, 0x03, 0x1D, 0x00, 0x30, 0x1A, 0x02, 0x13] ++ List.replicate 18 0x5B ++
    [0x01, 0x02, 0x03, 0x01, 0x00, 0x01]

theorem render_readable_lineKey :
    ∃ key line, Blob.decode lineKey = .ok key ∧ key.render = line ++ ['\n'] ∧ line.length = 64 ∧
      decodeBase64Text (toUtf8 line) = .ok key.encode := by
  have decoded : Blob.decode lineKey = .ok ⟨lineKey⟩ := by decide +kernel
  have rendered : Blob.render ⟨lineKey⟩ = Base64.encode lineKey ++ ['\n'] := by
    decide +kernel
  have size : (Base64.encode lineKey).length = 64 := by decide +kernel
  refine ⟨_, _, decoded, rendered, size, ?_⟩
  -- The line end is taken out.
  have respaced : Respaced (toUtf8 (Blob.render ⟨lineKey⟩)) (toUtf8 (Base64.encode lineKey)) := by
    rw [rendered, toUtf8_append, ← List.append_nil (toUtf8 (Base64.encode lineKey))]
    exact .remove (by decide) .same
  exact ((render_readable decoded).2 _ respaced).1

end TrustSchema.Key
