import Adios.Wire.Endian

/-!
# Wire — images as sequences of fields

A binary image is described by the list of its *fields*: a `word` is a multi-byte quantity in
the byte order of the machine that wrote it, a `text` is a string of single bytes that has no
byte order. `render swap` lays the fields out one after the other; `render true` is the image
in which every word is byte-reversed, which is what a machine of the other byte order writes.
-/

namespace Wire

open List

inductive Field where
  | word (bytes : List UInt8)
  | text (bytes : List UInt8)
  deriving DecidableEq, Repr

namespace Field

def raw : Field → List UInt8
  | word bs => bs
  | text bs => bs

/-- The bytes of a field in an image, byte-reversed when `swap` is set and the field is a word. -/
def render (swap : Bool) : Field → List UInt8
  | word bs => if swap then bs.reverse else bs
  | text bs => bs

@[simp] theorem length_render (swap : Bool) (f : Field) :
    (f.render swap).length = f.raw.length := by
  cases f <;> cases swap <;> simp [render, raw]

end Field

def render (swap : Bool) (fs : List Field) : List UInt8 := fs.flatMap (Field.render swap)

variable (swap : Bool)

@[simp] theorem render_nil : render swap [] = [] := rfl

@[simp] theorem render_cons (f : Field) (fs : List Field) :
    render swap (f :: fs) = f.render swap ++ render swap fs := rfl

@[simp] theorem render_append (fs gs : List Field) :
    render swap (fs ++ gs) = render swap fs ++ render swap gs := by
  simp [render]

theorem render_flatMap {α : Type*} (xs : List α) (f : α → List Field) :
    render swap (xs.flatMap f) = xs.flatMap fun x => render swap (f x) := by
  simp [render, flatMap_assoc]

def imageSize (fs : List Field) : Nat := (render false fs).length

@[simp] theorem imageSize_nil : imageSize [] = 0 := rfl

@[simp] theorem imageSize_cons (f : Field) (fs : List Field) :
    imageSize (f :: fs) = f.raw.length + imageSize fs := by
  simp [imageSize]

@[simp] theorem imageSize_append (fs gs : List Field) :
    imageSize (fs ++ gs) = imageSize fs + imageSize gs := by
  simp [imageSize]

theorem length_render (fs : List Field) :
    (render swap fs).length = imageSize fs := by
  induction fs with
  | nil => rfl
  | cons f fs ih => simp [ih]

theorem length_le_imageSize_flatMap {α : Type*} (xs : List α) {f : α → List Field}
    (h : ∀ x, 0 < imageSize (f x)) : xs.length ≤ imageSize (xs.flatMap f) := by
  induction xs with
  | nil => exact Nat.le_refl _
  | cons x xs ih =>
    have hx := h x
    rw [flatMap_cons, imageSize_append, length_cons]
    omega

theorem render_map_word {α : Type*} (xs : List α) (f : α → List UInt8) :
    render swap (xs.map fun x => .word (f x)) =
      xs.flatMap fun x => if swap then (f x).reverse else f x := by
  induction xs with
  | nil => rfl
  | cons x xs ih => rw [map_cons, render_cons, ih, flatMap_cons]; rfl

end Wire
