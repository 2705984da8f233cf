import Groovebox.Text.Cluster

/-! Backspaces in a typed line: each takes back the cluster typed before it. -/

namespace Groovebox.Text

/-- What was typed and not taken back, from the back, with the sizes of its clusters. -/
structure Typed where
  text : List Char := []
  sizes : List Nat := []

namespace Typed

def dropBytes : Nat → List Char → List Char
  | 0, text => text
  | _ + 1, [] => []
  | n + 1, c :: rest => dropBytes (n + 1 - c.utf8Size) rest

def back (t : Typed) : Typed :=
  match t.sizes with
  | [] => t
  | size :: sizes => ⟨dropBytes size t.text, sizes⟩

/-- Add a cluster. Its size counts the bytes modulo 256, so that of a longer one a
backspace takes back less. -/
def push (t : Typed) (cluster : List Char) : Typed :=
  ⟨cluster.reverse ++ t.text, cluster.foldr (·.utf8Size + ·) 0 % 256 :: t.sizes⟩

def enter (t : Typed) (cluster : List Char) : Typed :=
  if cluster = ['\x08'] then t.back else t.push cluster

theorem dropBytes_sum (cluster text : List Char) :
    dropBytes (cluster.foldr (·.utf8Size + ·) 0) (cluster ++ text) = text := by
  induction cluster with
  | nil => simp [dropBytes]
  | cons c rest ih =>
    have hc := c.utf8Size_pos
    obtain ⟨n, hn⟩ : ∃ n, (c :: rest).foldr (·.utf8Size + ·) 0 = n + 1 :=
      ⟨_, (Nat.succ_pred_eq_of_pos (by simp; omega)).symm⟩
    rw [hn, List.cons_append, dropBytes]
    simp only [List.foldr_cons] at hn
    rw [show n + 1 - c.utf8Size = rest.foldr (·.utf8Size + ·) 0 by omega, ih]

/-- A backspace takes back a cluster of less than 256 bytes. -/
theorem back_push (t : Typed) (cluster : List Char)
    (h : cluster.foldr (·.utf8Size + ·) 0 < 256) : (t.push cluster).back = t := by
  have hs : cluster.reverse.foldr (·.utf8Size + ·) 0 = cluster.foldr (·.utf8Size + ·) 0 := by
    refine cluster.reverse_perm.foldr_eq' (fun _ _ _ _ size => ?_) 0
    exact Nat.add_left_comm _ _ size
  simp only [push, back, Nat.mod_eq_of_lt h]
  rw [← hs, dropBytes_sum]

end Typed

/-- The line that is left when all backspaces have taken effect. -/
def applyBackspaces (line : List Char) : List Char :=
  ((clusters line).foldl Typed.enter {}).text.reverse

end Groovebox.Text
