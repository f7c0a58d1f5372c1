/-! Total tables: what a contract keeps per key. Every key has a value, and a key that was never
written has the table's default, so two tables with the same readings are the same table. -/
namespace Treasury

/-- A value for every key. -/
structure Table (κ ν : Type) where
  read : κ → ν

namespace Table

variable {κ ν : Type}

/-- The table that holds one value everywhere. -/
def const (value : ν) : Table κ ν := ⟨fun _ => value⟩

/-- Replace the value of one key. -/
@[noinline] def write [DecidableEq κ] (t : Table κ ν) (key : κ) (value : ν) : Table κ ν :=
  ⟨fun k => if k = key then value else t.read k⟩

@[ext] theorem ext {t u : Table κ ν} (h : ∀ k, t.read k = u.read k) : t = u := by
  cases t; cases u
  exact congrArg mk (funext h)

@[simp] theorem read_const (value : ν) (k : κ) : (const value : Table κ ν).read k = value := rfl

variable [DecidableEq κ]

theorem read_write (t : Table κ ν) (key k : κ) (value : ν) :
    (t.write key value).read k = if k = key then value else t.read k := rfl

@[simp] theorem read_write_self (t : Table κ ν) (key : κ) (value : ν) :
    (t.write key value).read key = value := by simp [read_write]

@[simp] theorem read_write_of_ne (t : Table κ ν) {key k : κ} (value : ν) (h : k ≠ key) :
    (t.write key value).read k = t.read k := by simp [read_write, h]

/-- Writing back what is there changes nothing. -/
@[simp] theorem write_read (t : Table κ ν) (key : κ) : t.write key (t.read key) = t := by
  ext k
  by_cases h : k = key
  · subst h; simp
  · simp [h]

/-- The later of two writes to one key is the one that counts. -/
@[simp] theorem write_write (t : Table κ ν) (key : κ) (first second : ν) :
    (t.write key first).write key second = t.write key second := by
  ext k
  by_cases h : k = key
  · subst h; simp
  · simp [h]

/-- Writes to different keys may be swapped. -/
theorem write_comm (t : Table κ ν) {a b : κ} (x y : ν) (h : a ≠ b) :
    (t.write a x).write b y = (t.write b y).write a x := by
  ext k
  by_cases hb : k = b
  · subst hb; simp [h.symm]
  · by_cases ha : k = a
    · subst ha; simp [hb]
    · simp [ha, hb]

end Table

end Treasury
