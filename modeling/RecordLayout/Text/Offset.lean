/-!
Byte offsets into a text that is a list of characters. An offset is a boundary when it is the
length in bytes of some first characters; cutting there splits the text without loss.
-/

namespace RecordLayout.Text

/-- Length in bytes when encoded as UTF-8. -/
def utf8Length : List Char → Nat
  | [] => 0
  | c :: cs => c.utf8Size + utf8Length cs

/-- The fewest first characters that reach the offset, or the whole text when it is shorter. -/
def takeBytes : Nat → List Char → List Char
  | 0, _ => []
  | _ + 1, [] => []
  | n + 1, c :: cs => c :: takeBytes (n + 1 - c.utf8Size) cs

/-- What `takeBytes` leaves. -/
def dropBytes : Nat → List Char → List Char
  | 0, cs => cs
  | _ + 1, [] => []
  | n + 1, c :: cs => dropBytes (n + 1 - c.utf8Size) cs

/-- The characters between two offsets, if both are boundaries and in order. -/
def slice? (start stop : Nat) (chars : List Char) : Option (List Char) :=
  if start ≤ stop ∧ utf8Length (takeBytes start chars) = start ∧
      utf8Length (takeBytes stop chars) = stop then
    some (takeBytes (stop - start) (dropBytes start chars))
  else
    none

/-- The line with the given number, counted from 0 and without its newline; empty past the end. -/
def line : Nat → List Char → List Char
  | 0, chars => chars.takeWhile (· ≠ '\n')
  | number + 1, chars => line number ((chars.dropWhile (· ≠ '\n')).drop 1)

@[simp] theorem utf8Length_append (front back : List Char) :
    utf8Length (front ++ back) = utf8Length front + utf8Length back := by
  induction front with
  | nil => simp [utf8Length]
  | cons c cs ih => simp [utf8Length, ih, Nat.add_assoc]

theorem takeBytes_append_dropBytes (n : Nat) (chars : List Char) :
    takeBytes n chars ++ dropBytes n chars = chars := by
  fun_induction takeBytes n chars with
  | case1 => simp [dropBytes]
  | case2 => simp [dropBytes]
  | case3 n c cs ih => simp [dropBytes, ih]

/-- Cutting where some first characters end gives those characters and the others. -/
theorem takeBytes_utf8Length_append (front back : List Char) :
    takeBytes (utf8Length front) (front ++ back) = front := by
  induction front with
  | nil => simp [utf8Length, takeBytes]
  | cons c cs ih =>
    have positive := c.utf8Size_pos
    obtain ⟨size, grows⟩ : ∃ size, utf8Length (c :: cs) = size + 1 :=
      ⟨utf8Length (c :: cs) - 1, by simp only [utf8Length]; omega⟩
    have left : size + 1 - c.utf8Size = utf8Length cs := by simp only [utf8Length] at grows; omega
    simp [grows, takeBytes, left, ih]

theorem dropBytes_utf8Length_append (front back : List Char) :
    dropBytes (utf8Length front) (front ++ back) = back := by
  have whole := takeBytes_append_dropBytes (utf8Length front) (front ++ back)
  rw [takeBytes_utf8Length_append] at whole
  exact List.append_cancel_left whole

end RecordLayout.Text
