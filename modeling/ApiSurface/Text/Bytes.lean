/-!
# Byte offsets

Positions in error texts count the bytes of UTF-8. A position is the length of what stands before
it, so every position computed this way is the start of a character or the end of the text.
-/

namespace ApiSurface.Text

/-- Length of a text in bytes. -/
def byteLength : List Char → Nat
  | [] => 0
  | c :: rest => c.utf8Size + byteLength rest

/-- The text after its first `n` bytes; a character that `n` cuts is dropped whole. -/
def dropBytes : Nat → List Char → List Char
  | 0, s => s
  | _, [] => []
  | n, c :: rest => dropBytes (n - c.utf8Size) rest

theorem byteLength_append (s t : List Char) :
    byteLength (s ++ t) = byteLength s + byteLength t := by
  induction s with
  | nil => simp [byteLength]
  | cons c rest ih => simp [byteLength, ih, Nat.add_assoc]

/-- The text behind a front of it. -/
theorem dropBytes_byteLength (front back : List Char) :
    dropBytes (byteLength front) (front ++ back) = back := by
  induction front with
  | nil => cases back <;> rfl
  | cons c front ih =>
    have hc := c.utf8Size_pos
    rw [byteLength, List.cons_append]
    cases hlength : c.utf8Size + byteLength front with
    | zero => omega
    | succ n =>
      rw [dropBytes, ← hlength, Nat.add_sub_cancel_left, ih]
      simp

/-- The bytes of a string are those of its characters. -/
theorem utf8ByteSize_ofList (s : List Char) : (String.ofList s).utf8ByteSize = byteLength s := by
  induction s with
  | nil => rfl
  | cons c rest ih =>
    rw [String.ofList_cons, String.utf8ByteSize_append, String.utf8ByteSize_singleton, ih,
      byteLength]

/-- Behind each front of a string a character begins, or the string ends. -/
theorem isValid_byteLength {s : String} {front back : List Char} (h : s.toList = front ++ back) :
    String.Pos.Raw.IsValid s ⟨byteLength front⟩ := by
  refine String.Pos.Raw.isValid_iff_exists_append.mpr
    ⟨String.ofList front, String.ofList back, ?_, ?_⟩
  · rw [← String.ofList_append, ← h, String.ofList_toList]
  · rw [← utf8ByteSize_ofList]
    rfl

end ApiSurface.Text
