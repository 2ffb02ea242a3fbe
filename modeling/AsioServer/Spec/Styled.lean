import Mathlib.Data.List.Basic
import AsioServer.Ref.Json

/-!
# What is assumed of the JSON library

Nothing is assumed of `parse`. Of `toStyledString` only the size of its result
matters, and only for the responses the server makes up itself: objects of up
to three members whose values are ints or short texts that need no escape. The
library writes such an object in a few lines (`StylesPlain`). `flat` is a
library that does, for the texts and the objects of a finite scene.
-/

namespace AsioServer

/-- An int, or a short text that is written as it is. -/
def Json.plain : Json → Bool
  | .int i => -2147483648 ≤ i && i ≤ 2147483647
  | .str s => s.length ≤ 40 && s.all fun c => 32 ≤ c && c < 127 && c != 34 && c != 92
  | _ => false

def Json.plainObj : Json → Bool
  | .obj members => members.length ≤ 3 && members.all fun m => m.1.length ≤ 8 && m.2.plain
  | _ => false

def JsonLib.StylesPlain (lib : JsonLib) : Prop :=
  ∀ v : Json, v.plainObj = true → (lib.toStyledString v).length ≤ 1024

/-- Text that is written as it is. -/
def plainText (s : Bytes) : Bool := s.all fun c => 32 ≤ c && c < 127 && c != 34 && c != 92

/-- The styled form of an object has in it the characters of each member that
is a plain string. -/
def JsonLib.KeepsText (lib : JsonLib) : Prop :=
  ∀ (members : List (Bytes × Json)) (key s : Bytes), (key, .str s) ∈ members →
    plainText s = true → s <:+: lib.toStyledString (.obj members)

/-! ## Flat objects -/

def flatValue : Json → Bytes
  | .int i => decimal i
  | .str s => ascii "\"" ++ s ++ ascii "\""
  | _ => ascii "null"

def flatMember (m : Bytes × Json) : Bytes :=
  ascii "\t\"" ++ m.1 ++ ascii "\" : " ++ flatValue m.2

def styledFlat : Json → Bytes
  | .obj members =>
      ascii "\x7b\n" ++ (ascii ",\n").intercalate (members.map flatMember) ++ ascii "\n\x7d\n"
  | _ => ascii "null\n"

/-- The library on a scene: the texts that are JSON, and flat objects. -/
def JsonLib.flat (texts : List (Bytes × Json)) : JsonLib where
  parse text :=
    match texts.lookup text with
    | some v => (true, v)
    | none => (false, .null)
  toStyledString := styledFlat

/-! A user registers, logs in with the id 1, and logs out. -/

def registerText : Bytes := ascii "\x7b\"username\":\"amy\",\"password\":\"pw\"\x7d"

def loginText : Bytes := ascii "\x7b\"id\":1,\"username\":\"amy\",\"password\":\"pw\"\x7d"

def logoutText : Bytes := ascii "\x7b\"id\":1\x7d"

def scene : JsonLib := .flat
  [(registerText, .obj [(ascii "password", .str (ascii "pw")),
      (ascii "username", .str (ascii "amy"))]),
    (loginText, .obj [(ascii "id", .int 1), (ascii "password", .str (ascii "pw")),
      (ascii "username", .str (ascii "amy"))]),
    (logoutText, .obj [(ascii "id", .int 1)])]

/-! ## Sizes -/

theorem length_ascii (s : String) : (ascii s).length = s.length := by
  rw [ascii, List.length_map, String.length_toList]

theorem length_decimal {i : Int} (h₁ : -2147483648 ≤ i) (h₂ : i ≤ 2147483647) :
    (decimal i).length ≤ 11 := by
  have hrepr : ∀ n : Nat, n < 10 ^ 10 → n.repr.length ≤ 10 := fun n hn =>
    (Nat.length_repr_le_iff (by decide)).mpr hn
  rw [decimal, length_ascii]
  cases i with
  | ofNat n =>
      have hn := hrepr n (by simp only [Int.ofNat_eq_natCast] at h₂; omega)
      show n.repr.length ≤ 11
      omega
  | negSucc n =>
      have hn := hrepr (n + 1) (by omega)
      show ("-" ++ (n + 1).repr).length ≤ 11
      rw [String.length_append]
      show 1 + _ ≤ 11
      omega

theorem length_flatMember {m : Bytes × Json} (hkey : m.1.length ≤ 8) (h : m.2.plain = true) :
    (flatMember m).length ≤ 60 := by
  have hvalue : (flatValue m.2).length ≤ 42 := by
    cases hv : m.2 with
    | int i =>
        rw [hv] at h
        simp only [Json.plain, Bool.and_eq_true, decide_eq_true_eq] at h
        have := length_decimal h.1 h.2
        show (decimal i).length ≤ 42
        omega
    | str s =>
        rw [hv] at h
        simp only [Json.plain, Bool.and_eq_true, decide_eq_true_eq] at h
        simp only [flatValue, List.length_append, length_ascii]
        show 1 + s.length + 1 ≤ 42
        omega
    | null | bool | real | arr | obj => rw [hv] at h; cases h
  simp only [flatMember, List.length_append, length_ascii]
  show 2 + m.1.length + 4 + _ ≤ 60
  omega

theorem flat_stylesPlain (texts : List (Bytes × Json)) : (JsonLib.flat texts).StylesPlain := by
  intro v hv
  cases v with
  | obj members =>
      simp only [Json.plainObj, Bool.and_eq_true, decide_eq_true_eq, List.all_eq_true] at hv
      obtain ⟨hlen, hplain⟩ := hv
      have hmember : ∀ m ∈ members, (flatMember m).length ≤ 60 := fun m hm =>
        length_flatMember (hplain m hm).1 (hplain m hm).2
      have hbody : ((ascii ",\n").intercalate (members.map flatMember)).length ≤ 200 := by
        have hsep : ",\n".length = 2 := rfl
        match members, hlen, hmember with
        | [], _, _ => simp
        | [a], _, h =>
            have ha := h a (by simp)
            simp
            omega
        | [a, b], _, h =>
            have ha := h a (by simp)
            have hb := h b (by simp)
            simp [List.intercalate, length_ascii]
            omega
        | [a, b, c], _, h =>
            have ha := h a (by simp)
            have hb := h b (by simp)
            have hc := h c (by simp)
            simp [List.intercalate, length_ascii]
            omega
        | _ :: _ :: _ :: _ :: _, hlen, _ =>
            simp only [List.length_cons] at hlen
            omega
      show (ascii "\x7b\n" ++ _ ++ ascii "\n\x7d\n").length ≤ 1024
      simp only [List.length_append, length_ascii]
      show 2 + _ + 3 ≤ 1024
      omega
  | null | bool | int | real | str | arr => cases hv

/-! ## Text -/

theorem mem_intersperse {α : Type} {sep x : α} {xs : List α} (h : x ∈ xs) :
    x ∈ xs.intersperse sep := by
  induction xs with
  | nil => exact h
  | cons a as ih =>
      cases as with
      | nil => exact h
      | cons b bs =>
          rw [List.intersperse_cons_cons, List.mem_cons, List.mem_cons]
          rcases List.mem_cons.mp h with rfl | h
          · exact Or.inl rfl
          · exact Or.inr (Or.inr (ih h))

theorem flat_keepsText (texts : List (Bytes × Json)) : (JsonLib.flat texts).KeepsText := by
  intro members key s hmem _
  have hmember : s <:+: flatMember (key, .str s) := by
    refine ⟨ascii "\t\"" ++ key ++ ascii "\" : " ++ ascii "\"", ascii "\"", ?_⟩
    simp [flatMember, flatValue]
  have hbody : flatMember (key, .str s) <:+: (ascii ",\n").intercalate (members.map flatMember) :=
    List.infix_of_mem_flatten (mem_intersperse (List.mem_map_of_mem hmem))
  exact (hmember.trans hbody).trans (List.infix_append _ _ _)

/-- The library knows the text of a scene. -/
theorem flat_parse (text : Bytes) (v : Json) : ((JsonLib.flat [(text, v)]).parse text).2 = v := by
  simp [JsonLib.flat]

end AsioServer
