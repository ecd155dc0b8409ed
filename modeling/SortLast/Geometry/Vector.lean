import SortLast.Scalar.Decimal

/-!
# Vectors

Triples and quadruples of scalars, over any scalar type: single precision where the program
computes, exact numbers where a law is stated. Every operation works component by component and in
the order written here, since rounding makes the order visible.

* `Vec3`, `Vec4`: the types; `Point` and `Colour` are their single-precision instances.
* `Point.dot`, `Point.cross`, `Point.length`, `Point.normalize`.
* `Point.text`, `Point.markedText`: the two written forms.
-/

namespace SortLast

/-- A triple of components. -/
structure Vec3 (α : Type) where
  x : α
  y : α
  z : α
  deriving DecidableEq, Repr, Inhabited

/-- A quadruple of components; a colour is red, green, blue and opacity. -/
structure Vec4 (α : Type) where
  x : α
  y : α
  z : α
  w : α
  deriving DecidableEq, Repr, Inhabited

/-- A point or direction in object space. -/
abbrev Point := Vec3 Single

/-- A colour with opacity. -/
abbrev Colour := Vec4 Single

namespace Vec3

variable {α β γ : Type}

/-- All three components alike. -/
def splat (a : α) : Vec3 α := ⟨a, a, a⟩

/-- Apply a function to each component. -/
def map (f : α → β) (v : Vec3 α) : Vec3 β := ⟨f v.x, f v.y, f v.z⟩

/-- Combine two vectors component by component. -/
def zipWith (f : α → β → γ) (u : Vec3 α) (v : Vec3 β) : Vec3 γ := ⟨f u.x v.x, f u.y v.y, f u.z v.z⟩

/-- True if all components satisfy a test. -/
def all (p : α → Bool) (v : Vec3 α) : Bool := p v.x && p v.y && p v.z

/-- True if some component satisfies a test. -/
def any (p : α → Bool) (v : Vec3 α) : Bool := p v.x || p v.y || p v.z

instance [Add α] : Add (Vec3 α) := ⟨zipWith (· + ·)⟩
instance [Sub α] : Sub (Vec3 α) := ⟨zipWith (· - ·)⟩
instance [Mul α] : Mul (Vec3 α) := ⟨zipWith (· * ·)⟩
instance [Mul α] : HMul (Vec3 α) α (Vec3 α) := ⟨fun v s => v.map (· * s)⟩
instance [Div α] : HDiv (Vec3 α) α (Vec3 α) := ⟨fun v s => v.map (· / s)⟩

end Vec3

namespace Vec4

variable {α β γ : Type}

/-- All four components alike. -/
def splat (a : α) : Vec4 α := ⟨a, a, a, a⟩

/-- Apply a function to each component. -/
def map (f : α → β) (v : Vec4 α) : Vec4 β := ⟨f v.x, f v.y, f v.z, f v.w⟩

/-- Combine two vectors component by component. -/
def zipWith (f : α → β → γ) (u : Vec4 α) (v : Vec4 β) : Vec4 γ :=
  ⟨f u.x v.x, f u.y v.y, f u.z v.z, f u.w v.w⟩

/-- True if all components satisfy a test. -/
def all (p : α → Bool) (v : Vec4 α) : Bool := p v.x && p v.y && p v.z && p v.w

/-- The first three components. -/
def truncate (v : Vec4 α) : Vec3 α := ⟨v.x, v.y, v.z⟩

instance [Add α] : Add (Vec4 α) := ⟨zipWith (· + ·)⟩
instance [Sub α] : Sub (Vec4 α) := ⟨zipWith (· - ·)⟩
instance [Mul α] : Mul (Vec4 α) := ⟨zipWith (· * ·)⟩
instance [Mul α] : HMul (Vec4 α) α (Vec4 α) := ⟨fun v s => v.map (· * s)⟩
instance [Div α] : HDiv (Vec4 α) α (Vec4 α) := ⟨fun v s => v.map (· / s)⟩

end Vec4

namespace Vec3

/-- The zero vector. -/
def zero : Point := ⟨0, 0, 0⟩

/-- The smaller component, axis by axis. -/
protected def min (u v : Point) : Point := zipWith Single.min u v

/-- The larger component, axis by axis. -/
protected def max (u v : Point) : Point := zipWith Single.max u v

/-- Move each component into its interval; not-a-number becomes the lower end. -/
def clamp (v lo hi : Point) : Point := (v.max lo).min hi

/-- True if every component is finite. -/
def isFinite (v : Point) : Bool := v.all Single.isFinite

/-- The scalar product. -/
def dot (u v : Point) : Single := u.x * v.x + u.y * v.y + u.z * v.z

/-- The vector product. -/
def cross (u v : Point) : Point :=
  ⟨u.y * v.z - v.y * u.z, u.z * v.x - v.z * u.x, u.x * v.y - v.x * u.y⟩

/-- The Euclidean length. -/
def length (v : Point) : Single := (v.dot v).sqrt

/-- The distance between two points. -/
def distance (u v : Point) : Single := (u - v).length

/-- The vector of the same direction and length one. -/
def normalize (v : Point) : Point := v * (1 / v.length)

/-- The components in brackets, in plain style. -/
def text (v : Point) : String :=
  "[" ++ v.x.text ++ ", " ++ v.y.text ++ ", " ++ v.z.text ++ "]"

/-- The components in marked style, under the name of the type. -/
def markedText (v : Point) : String :=
  "Vec3(" ++ v.x.markedText ++ ", " ++ v.y.markedText ++ ", " ++ v.z.markedText ++ ")"

end Vec3

/-- The colour between `a` and `b` at the fraction `s`. -/
def Vec4.lerp (a b : Colour) (s : Single) : Colour := a * (1 - s) + b * s

/-- The fully transparent colour. -/
def Vec4.zero : Colour := ⟨0, 0, 0, 0⟩

/-- Opaque white. -/
def Vec4.one : Colour := ⟨1, 1, 1, 1⟩

end SortLast
