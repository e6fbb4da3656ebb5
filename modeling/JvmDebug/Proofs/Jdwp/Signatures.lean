import JvmDebug.Jdwp.Signature
import JvmDebug.Proofs.Text.Pieces
import Mathlib.Data.Set.Function

/-!
# Signatures and names

A class goes by its binary name among its sources, and by its signature for a machine. Neither loses anything on the way
to the other, since there are no slashes in the one and no dots in the other. The name of a type is read off its
signature: the keyword or the name of its elements, and a pair of brackets for each dimension. No two types of fields
have the same name, unless a class is called like a keyword.
-/

namespace JvmDebug.Jdwp.Signature
set_option autoImplicit false

variable {cs : List Char} {old new : Char}

/-! ## One character in the place of another -/

/-- What was put in the place of a character can be told from the rest if it stood nowhere before. -/
theorem replaceChar_replaceChar_iff (h : old ≠ new) : replaceChar new old (replaceChar old new cs) = cs ↔ new ∉ cs := by
  induction cs with
  | nil => simp [replaceChar]
  | cons c rest ih =>
    simp only [replaceChar, List.map_cons, List.cons.injEq, List.mem_cons, not_or] at ih ⊢
    rw [ih]
    refine and_congr_left fun _ => ?_
    by_cases hOld : c = old
    · simp [hOld, h.symm]
    · by_cases hNew : c = new
      · simp [hNew, h]
      · simp [hOld, hNew, Ne.symm hNew]

/-- To replace a separator is to join the pieces by another one. -/
theorem replaceChar_eq_intercalate (old new : Char) (cs : List Char) :
    replaceChar old new cs = [new].intercalate (splitBy (· = old) cs) := by
  induction cs with
  | nil => rfl
  | cons c rest ih =>
    obtain ⟨piece, pieces, hPieces⟩ := List.exists_cons_of_ne_nil (splitBy_ne_nil (· = old) rest)
    rw [replaceChar, List.map_cons, ← replaceChar, ih, splitBy, hPieces]
    by_cases hc : c = old
    · simp [hc, List.intercalate]
    · cases pieces <;> simp [hc, List.intercalate]

/-! ## Classes -/

theorem binaryName_ofClass (body : List Char) :
    binaryName (String.ofList ('L' :: body ++ [';'])) = String.ofList (replaceChar '/' '.' body) := by
  have hPart : classPart? ('L' :: body ++ [';']) = some body := by simp [classPart?]
  rw [binaryName, String.toList_ofList, hPart]

theorem binaryName_ofBinaryName_iff (name : String) : binaryName (ofBinaryName name) = name ↔ '/' ∉ name.toList := by
  rw [ofBinaryName, binaryName_ofClass, ← replaceChar_replaceChar_iff (by decide : '.' ≠ '/'), ← String.toList_inj,
    String.toList_ofList]

theorem ofBinaryName_binaryName_iff (body : List Char) :
    ofBinaryName (binaryName (String.ofList ('L' :: body ++ [';']))) = String.ofList ('L' :: body ++ [';']) ↔ '.' ∉ body := by
  rw [binaryName_ofClass, ofBinaryName, String.toList_ofList, ← replaceChar_replaceChar_iff (by decide : '/' ≠ '.'),
    String.ofList_inj]
  simp

/-! ## Types of fields -/

inductive Primitive where
  | byte
  | char
  | double
  | float
  | int
  | long
  | short
  | boolean
  deriving DecidableEq

namespace Primitive

def letter : Primitive → Char
  | byte => 'B'
  | char => 'C'
  | double => 'D'
  | float => 'F'
  | int => 'I'
  | long => 'J'
  | short => 'S'
  | boolean => 'Z'

def keyword : Primitive → String
  | byte => "byte"
  | char => "char"
  | double => "double"
  | float => "float"
  | int => "int"
  | long => "long"
  | short => "short"
  | boolean => "boolean"

theorem keyword_injective : Function.Injective keyword := by
  intro p p' h
  cases p <;> cases p' <;> simp_all [keyword]

end Primitive

/-- The name of a class in a signature, with slashes behind its packages. -/
@[ext] structure ClassName where
  chars : List Char
  plain : ∀ c ∈ chars, c ≠ '.' ∧ c ≠ ';' ∧ c ≠ '['

/-- What the elements of an array are, of as many dimensions as it has. -/
inductive Element where
  | primitive (p : Primitive)
  | ofClass (name : ClassName)

namespace Element

def signature : Element → List Char
  | primitive p => [p.letter]
  | ofClass name => 'L' :: name.chars ++ [';']

/-- The name in sources: a keyword, or the names of packages and class with dots between them. -/
def name : Element → List Char
  | primitive p => p.keyword.toList
  | ofClass name => ['.'].intercalate (splitBy (· = '/') name.chars)

/-- A class that is called like a primitive type, or like the type of nothing. -/
def IsCalledLikeKeyword : Element → Prop
  | primitive _ => False
  | ofClass name => (∃ p : Primitive, name.chars = p.keyword.toList) ∨ name.chars = "void".toList

end Element

/-- A type that a field can have. One without dimensions is no array. -/
structure FieldType where
  dimensions : Nat
  element : Element

namespace FieldType

def signature (t : FieldType) : String := String.ofList (List.replicate t.dimensions '[' ++ t.element.signature)

def name (t : FieldType) : String := String.ofList (t.element.name ++ (List.replicate t.dimensions ['[', ']']).flatten)

end FieldType

/-- The signatures of types that have no class which is called like a keyword. -/
def tellingSignatures : Set String := {s | ∃ t : FieldType, ¬t.element.IsCalledLikeKeyword ∧ t.signature = s}

/-! ### The name of a type -/

theorem typeNameChars_array (element : List Char) : typeNameChars ('[' :: element) = typeNameChars element ++ ['[', ']'] := rfl

theorem typeNameChars_class (rest : List Char) :
    typeNameChars ('L' :: rest) = replaceChar '/' '.' (withoutSemicolons rest) := rfl

theorem typeNameChars_brackets (n : Nat) (cs : List Char) :
    typeNameChars (List.replicate n '[' ++ cs) = typeNameChars cs ++ (List.replicate n ['[', ']']).flatten := by
  induction n with
  | zero => simp
  | succ n ih =>
    rw [List.replicate_succ, List.cons_append, typeNameChars_array, ih, List.replicate_succ', List.flatten_append,
      List.flatten_singleton, List.append_assoc]

theorem withoutSemicolons_append (h : ';' ∉ cs) : withoutSemicolons (cs ++ [';']) = cs := by
  have hKept : cs.reverse.dropWhile (· = ';') = cs.reverse := by
    rw [List.dropWhile_eq_self_iff]
    intro hSome hFirst
    exact h (List.mem_reverse.mp (of_decide_eq_true hFirst ▸ List.getElem_mem hSome))
  rw [withoutSemicolons, List.reverse_append, List.reverse_singleton, List.singleton_append, List.dropWhile_cons_of_pos rfl,
    hKept, List.reverse_reverse]

theorem typeNameChars_signature (e : Element) : typeNameChars e.signature = e.name := by
  cases e with
  | primitive p => cases p <;> rfl
  | ofClass name =>
    have hPlain : ';' ∉ name.chars := fun h => (name.plain _ h).2.1 rfl
    rw [Element.signature, List.cons_append, typeNameChars_class, withoutSemicolons_append hPlain,
      replaceChar_eq_intercalate, Element.name]

theorem typeName_signature (t : FieldType) : typeName t.signature = t.name := by
  rw [typeName, FieldType.signature, String.toList_ofList, typeNameChars_brackets, typeNameChars_signature, FieldType.name]

/-! ### The type of a name -/

theorem name_ofClass (name : ClassName) : (Element.ofClass name).name = replaceChar '/' '.' name.chars :=
  (replaceChar_eq_intercalate ..).symm

theorem bracket_not_mem_name (e : Element) : '[' ∉ e.name := by
  cases e with
  | primitive p => cases p <;> decide
  | ofClass name =>
    rw [name_ofClass, replaceChar, List.mem_map]
    rintro ⟨c, hc, hBracket⟩
    split at hBracket
    · cases hBracket
    · exact (name.plain c hc).2.2 hBracket

/-- The dimensions can be counted in the name, and the rest is the name of the elements. -/
theorem name_eq_iff {t t' : FieldType} :
    t.name = t'.name ↔ t.dimensions = t'.dimensions ∧ t.element.name = t'.element.name := by
  have hCount : ∀ t : FieldType, t.name.toList.count '[' = t.dimensions := by
    intro t
    rw [FieldType.name, String.toList_ofList, List.count_append, List.count_eq_zero.mpr (bracket_not_mem_name _)]
    simp [List.count_flatten]
  constructor
  · intro hName
    have hDimensions : t.dimensions = t'.dimensions := by rw [← hCount t, hName, hCount t']
    rw [FieldType.name, FieldType.name, hDimensions, String.ofList_inj] at hName
    exact ⟨hDimensions, List.append_cancel_right hName⟩
  · rintro ⟨hDimensions, hElement⟩
    rw [FieldType.name, FieldType.name, hDimensions, hElement]

theorem replaceChar_name_ofClass (name : ClassName) : replaceChar '.' '/' (Element.ofClass name).name = name.chars := by
  rw [name_ofClass]
  exact (replaceChar_replaceChar_iff (by decide)).mpr fun h => (name.plain _ h).1 rfl

/-- Only a class that is called like a keyword can have the name of a primitive type. -/
theorem isCalledLikeKeyword_of_name_eq {p : Primitive} {name : ClassName}
    (h : (Element.ofClass name).name = (Element.primitive p).name) : (Element.ofClass name).IsCalledLikeKeyword := by
  refine .inl ⟨p, ?_⟩
  rw [← replaceChar_name_ofClass, h]
  cases p <;> rfl

theorem element_eq_of_name_eq {e e' : Element} (hElse : ¬e.IsCalledLikeKeyword) (hElse' : ¬e'.IsCalledLikeKeyword)
    (h : e.name = e'.name) : e = e' := by
  cases e with
  | primitive p =>
    cases e' with
    | primitive p' => rw [Primitive.keyword_injective (String.toList_inj.mp h)]
    | ofClass name' => exact absurd (isCalledLikeKeyword_of_name_eq h.symm) hElse'
  | ofClass name =>
    cases e' with
    | primitive p' => exact absurd (isCalledLikeKeyword_of_name_eq h) hElse
    | ofClass name' =>
      have hChars : name.chars = name'.chars := by rw [← replaceChar_name_ofClass, h, replaceChar_name_ofClass]
      rw [ClassName.ext hChars]

/-- The ways from names to signatures and back. -/
theorem names_lose_nothing :
    (∀ name : String, binaryName (ofBinaryName name) = name ↔ '/' ∉ name.toList) ∧
    (∀ body : String, ofBinaryName (binaryName ("L" ++ body ++ ";")) = "L" ++ body ++ ";" ↔ '.' ∉ body.toList) ∧
    (∀ t : FieldType, typeName t.signature = t.name) ∧
    tellingSignatures.InjOn typeName := by
  refine ⟨binaryName_ofBinaryName_iff, fun body => ?_, typeName_signature, ?_⟩
  · have hText : "L" ++ body ++ ";" = String.ofList ('L' :: body.toList ++ [';']) := by simp [← String.toList_inj]
    rw [hText]
    exact ofBinaryName_binaryName_iff body.toList
  · rintro _ ⟨t, hElse, rfl⟩ _ ⟨t', hElse', rfl⟩ hName
    rw [typeName_signature, typeName_signature, name_eq_iff] at hName
    obtain ⟨hDimensions, hElement⟩ := hName
    rw [FieldType.signature, FieldType.signature, hDimensions, element_eq_of_name_eq hElse hElse' hElement]

/-- Arrays of integers, and of a class that is called like the letter for them. -/
theorem names_lose_nothing_lettered :
    binaryName (ofBinaryName "com.example.Outer$Inner") = "com.example.Outer$Inner" ∧
      typeName "[[Lcom/example/Outer$Inner;" = "com.example.Outer$Inner[][]" ∧ typeName "[I" ≠ typeName "[LI;" := by
  obtain ⟨hName, -, hType, hApart⟩ := names_lose_nothing
  refine ⟨(hName _).mpr (by decide), ?_, fun hSame => ?_⟩
  · have hSignature : "[[Lcom/example/Outer$Inner;" =
        FieldType.signature ⟨2, .ofClass ⟨"com/example/Outer$Inner".toList, by simp⟩⟩ := by decide +kernel
    rw [hSignature, hType]
    decide +kernel
  · have hInts : "[I" ∈ tellingSignatures := ⟨⟨1, .primitive .int⟩, id, by decide +kernel⟩
    have hLettered : "[LI;" ∈ tellingSignatures := by
      refine ⟨⟨1, .ofClass ⟨['I'], by simp⟩⟩, ?_, by decide +kernel⟩
      rintro (⟨p, hKeyword⟩ | hKeyword)
      · cases p <;> simp [Primitive.keyword] at hKeyword
      · simp at hKeyword
    exact absurd (hApart hInts hLettered hSame) (by decide)

/-- A class that is called like a keyword has the name of the primitive type. -/
example : typeName "I" = typeName "Lint;" := by decide

end JvmDebug.Jdwp.Signature
