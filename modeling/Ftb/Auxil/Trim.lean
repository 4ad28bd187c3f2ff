import Ftb.Auxil
import Ftb.Client.Tokens

/-!
# What the two trimmers do

`soft_trim` guards against the empty string and counts the characters that are left; `trim_string`
does neither, and leaves its buffer at the front when the string is blank. The index of both is an
`int`: from 2 GiB on it overflows or wraps around (`Trimmable`).
-/

open CStr Buffer

namespace Auxil

/-! ## Integers -/

theorem int_nat {n : Nat} (h : n < 2 ^ 31) : int n = some (n : Int) := if_pos (by omega)

theorem int_pred {n : Nat} (h : n < 2 ^ 31) : int ((n : Int) - 1) = some ((n : Int) - 1) :=
  if_pos (by omega)

theorem int_big {n : Nat} (h : 2 ^ 31 ≤ n) : int n = none := if_neg (by omega)

theorem toSize_nat {n : Nat} (h : n < 2 ^ 31) : toSize n = n := by
  unfold toSize
  omega

theorem toInt_small {n : Nat} (h : n < 2 ^ 31) : toInt n = n := by
  unfold toInt
  rw [Int.bmod_def]
  omega

theorem toInt_mod {n : Nat} (h : n % 2 ^ 32 < 2 ^ 31) : toInt n = (n % 2 ^ 32 : Nat) := by
  unfold toInt
  rw [Int.bmod_def]
  omega

theorem toInt_neg {n : Nat} (h : 2 ^ 31 ≤ n % 2 ^ 32) : toInt n < 0 := by
  unfold toInt
  rw [Int.bmod_def]
  omega

theorem toInt_le (n : Nat) : -2 ^ 31 ≤ toInt n := by
  unfold toInt
  rw [Int.bmod_def]
  omega

theorem sizePred_pos {n : Nat} (h : 0 < n) : sizePred n = n - 1 := if_neg (Nat.ne_of_gt h)

/-! ## Blanks at the end -/

variable {p q w u v s : CStr} {c : Char} {n : Nat}

theorem rdropWhile_length_le (u : CStr) : (u.rdropWhile isBlank).length ≤ u.length :=
  (List.rdropWhile_prefix isBlank u).length_le

/-- With a character that is not blank, something is left. -/
theorem rdropWhile_ne_nil (hc : c ∈ u) (hb : isBlank c = false) : u.rdropWhile isBlank ≠ [] := by
  intro hnil
  have := List.rdropWhile_eq_nil_iff.1 hnil c hc
  rw [hb] at this
  cases this

/-- What is dropped from the end of `w` reaches down to `m`. -/
theorem rdropWhile_length_iff {m : Nat} :
    (w.rdropWhile isBlank).length ≤ m ↔ Blank (w.drop m) := by
  constructor
  · intro hle x hx
    have hsplit : w.rdropWhile isBlank ++ w.rtakeWhile isBlank = w :=
      List.rdropWhile_append_rtakeWhile ..
    rw [← hsplit, List.drop_append, List.drop_eq_nil_of_le hle, List.nil_append] at hx
    exact List.mem_rtakeWhile_imp (List.mem_of_mem_drop hx)
  · intro hq
    rw [← List.take_append_drop m w, rdropWhile_append _ hq]
    exact (rdropWhile_length_le _).trans (List.length_take_le _ _)

theorem rdropWhile_take {m : Nat} (hq : Blank (w.drop m)) :
    (w.take m).rdropWhile isBlank = w.rdropWhile isBlank := by
  rw [← rdropWhile_append (w.take m) hq, List.take_append_drop]

/-- The blanks before the first character that is not one. -/
theorem split_blank (h : ¬Blank s) :
    ∃ p w c, s = p ++ w ∧ Blank p ∧ w.head? = some c ∧ isBlank c = false := by
  have hne : s.dropWhile isBlank ≠ [] := fun hnil => h (List.dropWhile_eq_nil_iff.1 hnil)
  obtain ⟨c, t, hw⟩ := List.exists_cons_of_ne_nil hne
  have hb := List.head?_dropWhile_not isBlank s
  rw [hw] at hb
  refine ⟨s.takeWhile isBlank, s.dropWhile isBlank, c, List.takeWhile_append_dropWhile.symm,
    fun x hx => List.mem_takeWhile_imp hx, ?_, ?_⟩
  · rw [hw]
    rfl
  · exact hb

/-! ## Loops -/

/-- The first loop stops behind the blanks, unless the index overflows. -/
theorem skipBlanks_run (hp : Blank p) (hc : isBlank c = false) (hu : u.length < 2 ^ 31)
    (hn : p.length < n) (v : List Char) :
    skipBlanks (u ++ (p ++ c :: v)) n u.length =
      if u.length + p.length < 2 ^ 31 then some ((u.length + p.length : Nat) : Int) else none := by
  induction p generalizing u n with
  | nil =>
    obtain ⟨n, rfl⟩ := Nat.exists_eq_add_one_of_ne_zero (Nat.ne_of_gt hn)
    rw [List.nil_append, skipBlanks, get_append, Option.bind_eq_bind, Option.bind_some, if_neg (by simp [hc]),
      List.length_nil, Nat.add_zero, if_pos hu]
    rfl
  | cons b p ih =>
    obtain ⟨n, rfl⟩ := Nat.exists_eq_add_one_of_ne_zero (Nat.ne_of_gt (Nat.zero_lt_of_lt hn))
    have hb : isBlank b = true := hp b List.mem_cons_self
    have hp' : Blank p := fun x hx => hp x (List.mem_cons_of_mem _ hx)
    rw [List.cons_append, skipBlanks, get_append, Option.bind_eq_bind, Option.bind_some, if_pos hb,
      List.length_cons]
    by_cases hin : u.length + 1 < 2 ^ 31
    · have hstep : ((u.length : Int) + 1) = ((u ++ [b]).length : Nat) := by simp
      have hlen : (u ++ [b]).length < 2 ^ 31 := by simpa using hin
      have hrest := ih hp' hlen (Nat.lt_of_succ_lt_succ hn)
      rw [List.append_assoc, List.singleton_append] at hrest
      rw [hstep, int_nat hlen, Option.bind_eq_bind, Option.bind_some, hrest]
      have hsum : (u ++ [b]).length + p.length = u.length + (p.length + 1) := by
        rw [List.length_append, List.length_singleton]
        omega
      rw [hsum]
    · have hbig : int ((u.length : Int) + 1) = none :=
        int_big (show 2 ^ 31 ≤ u.length + 1 by omega)
      rw [hbig, if_neg (by omega)]
      rfl

theorem skipBlanks_front (hp : Blank p) {v : List Char} (hv : w ++ [nul] = c :: v)
    (hb : isBlank c = false) :
    skipBlanks (p ++ w ++ [nul]) (p ++ w ++ [nul]).length 0 =
      if p.length < 2 ^ 31 then some (p.length : Int) else none := by
  have hturns : p.length < (p ++ w ++ [nul]).length := by
    simp only [List.length_append, List.length_singleton]
    omega
  have hrun := skipBlanks_run (u := []) hp hb (by decide) hturns v
  rw [List.nil_append, List.length_nil, Nat.zero_add, ← hv, ← List.append_assoc] at hrun
  exact hrun

/-- The loop of `soft_trim` goes back over the blanks at the end of `u`. -/
theorem dropBlanks_run (hu : u.length < 2 ^ 31) (hn : u.length < n) (v : List Char) :
    dropBlanks (p ++ (u ++ v)) n u.length ((p.length : Int) + u.length - 1) =
      some (((u.rdropWhile isBlank).length : Int),
        (p.length : Int) + (u.rdropWhile isBlank).length - 1) := by
  induction u using List.reverseRecOn generalizing n v with
  | nil =>
    obtain ⟨n, rfl⟩ := Nat.exists_eq_add_one_of_ne_zero (Nat.ne_of_gt hn)
    simp [dropBlanks]
  | append_singleton u c ih =>
    obtain ⟨n, rfl⟩ := Nat.exists_eq_add_one_of_ne_zero (Nat.ne_of_gt (Nat.zero_lt_of_lt hn))
    have hlen : (u ++ [c]).length = u.length + 1 := by simp
    rw [hlen] at hu hn
    have hget : get (p ++ (u ++ [c] ++ v)) (p.length + (u ++ [c]).length - 1) = some c := by
      have hbuf : p ++ (u ++ [c] ++ v) = (p ++ u) ++ c :: v := by simp
      have hi : (p.length : Int) + (u ++ [c]).length - 1 = ((p ++ u).length : Nat) := by
        rw [hlen, List.length_append]
        omega
      rw [hbuf, hi]
      exact get_append (p ++ u) c v
    rw [dropBlanks, if_pos (by rw [hlen]; omega), hget, Option.bind_eq_bind, Option.bind_some]
    by_cases hb : isBlank c = true
    · have hj : ((u ++ [c]).length : Int) - 1 = u.length := by rw [hlen]; omega
      have he : (p.length : Int) + (u ++ [c]).length - 1 - 1 = p.length + u.length - 1 := by
        rw [hlen]; omega
      have hrest := ih (by omega) (show u.length < n by omega) (c :: v)
      rw [if_pos hb, hj, he, int_nat (by omega), List.rdropWhile_concat_pos _ _ _ hb, ← hrest]
      simp
    · rw [if_neg hb, List.rdropWhile_concat_neg _ _ _ hb]
      rfl

/-- And the one of `trim_string`. -/
theorem lastBlanks_run (hc : c ∈ u) (hb : isBlank c = false) (hu : u.length ≤ 2 ^ 31)
    (hn : u.length ≤ n) (v : List Char) :
    lastBlanks (u ++ v) n (u.length - 1) = some (((u.rdropWhile isBlank).length : Int) - 1) := by
  induction u using List.reverseRecOn generalizing n v with
  | nil => cases hc
  | append_singleton u d ih =>
    have hlen : (u ++ [d]).length = u.length + 1 := by simp
    rw [hlen] at hu hn
    obtain ⟨n, rfl⟩ := Nat.exists_eq_add_one_of_ne_zero (Nat.ne_of_gt (Nat.zero_lt_of_lt hn))
    have hi : ((u ++ [d]).length : Int) - 1 = u.length := by rw [hlen]; omega
    have hget : get (u ++ [d] ++ v) u.length = some d := by
      rw [List.append_assoc]
      exact get_append u d v
    rw [hi, lastBlanks, hget, Option.bind_eq_bind, Option.bind_some]
    by_cases hd : isBlank d = true
    · have hcu : c ∈ u := by
        rcases List.mem_append.1 hc with hc | hc
        · exact hc
        · rw [List.mem_singleton.1 hc, hd] at hb
          cases hb
      have hrest := ih hcu (by omega) (show u.length ≤ n by omega) (d :: v)
      rw [if_pos hd, int_pred (by omega), List.rdropWhile_concat_pos _ _ _ hd, ← hrest]
      simp
    · rw [if_neg hd, List.rdropWhile_concat_neg _ _ _ hd, hi]
      rfl

/-- A turn of the loop that shifts. -/
theorem shiftLoop_turn {b j len : Nat} {buf buf' : List Char} (hlen : strlen nul buf = some len)
    (hj : j < len) (hb : 0 < b) (hin : j + b < 2 ^ 31) (hget : get buf ((j + b : Nat) : Int) = some c)
    (hset : set buf j c = some buf') :
    shiftLoop b (n + 1) j buf = shiftLoop b n ((j + 1 : Nat) : Int) buf' := by
  have hlt : toSize (j : Int) < len := by
    rw [toSize_nat (by omega)]
    exact hj
  have hsum : (j : Int) + b = ((j + b : Nat) : Int) := by simp
  have hsucc : (j : Int) + 1 = ((j + 1 : Nat) : Int) := by simp
  have hk : int ((j : Int) + b) = some ((j + b : Nat) : Int) := by rw [hsum, int_nat hin]
  have hj' : int ((j : Int) + 1) = some ((j + 1 : Nat) : Int) := by rw [hsucc, int_nat (by omega)]
  simp only [shiftLoop, hlen, Option.bind_eq_bind, Option.bind_some, if_pos hlt, hk, hget, hset, hj']

/-- It moves the cell behind `a :: y` to its front. -/
theorem shiftLoop_step {x y t : List Char} {a : Char} {len : Nat}
    (hlen : strlen nul (x ++ (a :: y ++ c :: t)) = some len) (hj : x.length < len)
    (hin : x.length + (a :: y).length < 2 ^ 31) :
    shiftLoop (a :: y).length (n + 1) x.length (x ++ (a :: y ++ c :: t)) =
      shiftLoop (a :: y).length n (x ++ [c]).length (x ++ [c] ++ (y ++ [c] ++ t)) := by
  have hget : get (x ++ (a :: y ++ c :: t)) ((x.length + (a :: y).length : Nat) : Int) = some c := by
    rw [← List.length_append, ← List.append_assoc]
    exact get_append _ _ _
  have hset : set (x ++ (a :: y ++ c :: t)) x.length c =
      some (x ++ [c] ++ (y ++ [c] ++ t)) := by
    have hbuf : x ++ [c] ++ (y ++ [c] ++ t) = x ++ c :: (y ++ c :: t) := by simp
    rw [hbuf]
    exact set_append _ _ _ _
  have hsize : (x ++ [c]).length = x.length + 1 := by simp
  have hpos : 0 < (a :: y).length := Nat.zero_lt_succ _
  rw [shiftLoop_turn hlen hj hpos hin hget hset, hsize]

/-- The string is shifted over the blanks before it: `x` is shifted already, and `z` is left. -/
theorem shiftLoop_run {x y z : CStr} (hx : nul ∉ x) (hy : nul ∉ y) (hz : nul ∉ z) (hne : y ≠ [])
    (hlen : x.length + y.length + z.length < 2 ^ 31) (hn : z.length + 2 ≤ n) :
    ∃ d rest, shiftLoop y.length n x.length (x ++ (y ++ (z ++ [nul]))) =
      some (((x.length + z.length + 1 : Nat) : Int), x ++ z ++ nul :: d :: rest) := by
  have hstr : nul ∉ x ++ (y ++ z) := by
    simp only [List.mem_append, not_or]
    exact ⟨hx, hy, hz⟩
  have hstrlen : strlen nul (x ++ (y ++ (z ++ [nul]))) = some (x ++ (y ++ z)).length := by
    have := strlen_append hstr []
    simpa using this
  induction z generalizing x y n with
  | nil =>
    obtain ⟨n, rfl⟩ : ∃ m, n = m + 2 := Nat.exists_eq_add_of_le' hn
    cases y with
    | nil => exact absurd rfl hne
    | cons a y =>
      have hlt : x.length < (x ++ (a :: y ++ [])).length := by simp
      have hin : x.length + (a :: y).length < 2 ^ 31 := hlen
      rw [List.nil_append] at hstrlen ⊢
      obtain ⟨d, rest, hrest⟩ : ∃ d rest, y ++ [nul] = d :: rest := by
        cases y with
        | nil => exact ⟨nul, [], rfl⟩
        | cons b y => exact ⟨b, y ++ [nul], rfl⟩
      refine ⟨d, rest, ?_⟩
      have hbuf : x ++ [nul] ++ (y ++ [nul] ++ []) = x ++ nul :: d :: rest := by simp [hrest]
      have hsize : (x ++ [nul]).length = x.length + 1 := by simp
      have hend : ¬toSize ((x.length + 1 : Nat) : Int) < x.length := by
        rw [List.length_cons] at hin
        rw [toSize_nat (by omega)]
        omega
      rw [shiftLoop_step hstrlen hlt hin, hbuf, hsize]
      simp only [shiftLoop, strlen_append hx, Option.bind_eq_bind, Option.bind_some, if_neg hend]
      simp
  | cons c z ih =>
    obtain ⟨n, rfl⟩ : ∃ m, n = m + 1 := ⟨n - 1, by rw [List.length_cons] at hn; omega⟩
    cases y with
    | nil => exact absurd rfl hne
    | cons a y =>
      have hlt : x.length < (x ++ (a :: y ++ c :: z)).length := by simp
      rw [List.length_cons, List.length_cons] at hlen
      rw [List.length_cons] at hn
      rw [List.mem_cons, not_or] at hy hz
      have hx' : nul ∉ x ++ [c] := by
        rw [List.mem_append, List.mem_singleton, not_or]
        exact ⟨hx, hz.1⟩
      have hy' : nul ∉ y ++ [c] := by
        rw [List.mem_append, List.mem_singleton, not_or]
        exact ⟨hy.2, hz.1⟩
      have hsize : (x ++ [c]).length + (y ++ [c]).length + z.length < 2 ^ 31 := by
        rw [List.length_append, List.length_append, List.length_singleton]
        omega
      have hin : x.length + (a :: y).length < 2 ^ 31 := by
        rw [List.length_cons]
        omega
      have hstr' : nul ∉ x ++ [c] ++ (y ++ [c] ++ z) := fun hm =>
        (List.mem_append.1 hm).elim hx' fun hm => (List.mem_append.1 hm).elim hy' hz.2
      obtain ⟨d, rest, hrest⟩ := ih hx' hy' hz.2 (by simp) hsize (show z.length + 2 ≤ n by omega)
        hstr' (by simpa using strlen_append hstr' [])
      refine ⟨d, rest, ?_⟩
      have hsame : ((y ++ [c]).length : Int) = (a :: y).length := by simp
      have hidx : (x ++ [c]).length + z.length + 1 = x.length + (c :: z).length + 1 := by
        rw [List.length_append, List.length_singleton, List.length_cons]
        omega
      rw [hsame, hidx, List.append_assoc x [c] z] at hrest
      exact (shiftLoop_step hstrlen hlt hin).trans hrest

/-- In a string that is too long, the index overflows before its end. -/
theorem shiftLoop_overflow {b j : Nat} (hs : nul ∉ s) (hlen : 2 ^ 31 ≤ s.length) (hb : 0 < b)
    (hj : j + b ≤ 2 ^ 31) (n : Nat) : shiftLoop b n j (s ++ [nul]) = none := by
  induction n generalizing j s with
  | zero => rfl
  | succ n ih =>
    by_cases hin : j + b < 2 ^ 31
    · have hjs : j < s.length := by omega
      have hjb : j + b < s.length := by omega
      have hget : get (s ++ [nul]) ((j + b : Nat) : Int) = some s[j + b] := by
        rw [get_nat, List.getElem?_append_left hjb, List.getElem?_eq_getElem hjb]
      have hset : set (s ++ [nul]) j s[j + b] = some (s.set j s[j + b] ++ [nul]) := by
        have hrange : 0 ≤ (j : Int) ∧ (j : Int) < (s ++ [nul]).length := by
          rw [List.length_append]
          omega
        rw [Buffer.set, if_pos hrange, Int.toNat_natCast, List.set_append_left _ _ hjs]
      have hs' : nul ∉ s.set j s[j + b] := fun hm => by
        rcases List.mem_or_eq_of_mem_set hm with hm | he
        · exact hs hm
        · exact hs (he ▸ List.getElem_mem hjb)
      rw [shiftLoop_turn (strlen_append hs []) hjs hb hin hget hset]
      exact ih hs' (by rwa [List.length_set]) (show (j + 1) + b ≤ 2 ^ 31 by omega)
    · have hlt : toSize (j : Int) < s.length := by
        rw [toSize_nat (by omega)]
        omega
      have hsum : (j : Int) + b = ((j + b : Nat) : Int) := by simp
      have hbig : int ((j : Int) + b) = none := by rw [hsum, int_big (by omega)]
      simp only [shiftLoop, strlen_append hs, Option.bind_eq_bind, Option.bind_some, if_pos hlt, hbig,
        Option.bind_none]

/-! ## The functions -/

/-- The cut behind what is left of a part of the string. -/
theorem rdropWhile_cut (w : CStr) (m : Nat) :
    ∃ t, w = (w.take m).rdropWhile isBlank ++ t := by
  obtain ⟨t, ht⟩ := (List.rdropWhile_prefix isBlank (w.take m)).trans (List.take_prefix m w)
  exact ⟨t, ht.symm⟩

/-- `trimEnd` once its loop has stopped at `i`. -/
theorem trimEnd_eq {buf : List Char} {len : Nat} {r i : Int} (hlen : strlen nul buf = some len)
    (hpos : 0 < len) (hr : toInt (len - 1) = r) (hlast : lastBlanks buf buf.length r = some i) :
    trimEnd buf =
      if toSize i < len - 1 then (int (i + 1)).bind fun k => set buf k nul else some buf := by
  simp only [trimEnd, hlen, Option.bind_eq_bind, Option.bind_some, sizePred_pos hpos, hr, hlast,
    Option.pure_def]

/-- The second half of `trim_string` starts at index `r` and drops the blanks before it and what is
behind it. -/
theorem trimEnd_run (hw : nul ∉ w) (hc : w.head? = some c) (hb : isBlank c = false) {r : Nat}
    (hr : toInt (w.length - 1) = r) (hlt : r < w.length) (hin : r < 2 ^ 31) (rest : List Char) :
    (∀ buf, trimEnd (w ++ nul :: rest) = some buf →
      str nul buf = (w.take (r + 1)).rdropWhile isBlank) ∧
    ((((w.take (r + 1)).rdropWhile isBlank).length < 2 ^ 31 ∨ r + 1 = w.length) →
      ∃ buf, trimEnd (w ++ nul :: rest) = some buf) := by
  obtain ⟨w, rfl⟩ : ∃ t, w = c :: t := List.head?_eq_some_iff.1 hc
  have htake : ((c :: w).take (r + 1)).length = r + 1 := by
    rw [List.length_take]
    omega
  have hmem : c ∈ (c :: w).take (r + 1) := by simp
  have hne := rdropWhile_ne_nil hmem hb
  have hle := rdropWhile_length_le ((c :: w).take (r + 1))
  have hpos := List.length_pos_iff.2 hne
  obtain ⟨t, ht⟩ := rdropWhile_cut (c :: w) (r + 1)
  generalize hu : ((c :: w).take (r + 1)).rdropWhile isBlank = u at hle hpos ht
  have hlast : lastBlanks (c :: w ++ nul :: rest) (c :: w ++ nul :: rest).length r =
      some ((u.length : Int) - 1) := by
    have hsplit : c :: w ++ nul :: rest =
        (c :: w).take (r + 1) ++ ((c :: w).drop (r + 1) ++ nul :: rest) := by
      rw [← List.append_assoc, List.take_append_drop]
    have hrun := lastBlanks_run hmem hb (by omega)
      (show _ ≤ (c :: w ++ nul :: rest).length by rw [htake, List.length_append]; omega)
      ((c :: w).drop (r + 1) ++ nul :: rest)
    rw [← hsplit, hu, htake] at hrun
    have hidx : ((r + 1 : Nat) : Int) - 1 = r := by omega
    rwa [hidx] at hrun
  have hsize : toSize ((u.length : Int) - 1) = u.length - 1 := by
    have hcast : (u.length : Int) - 1 = ((u.length - 1 : Nat) : Int) := by omega
    rw [hcast, toSize_nat (by omega)]
  have hsucc : (u.length : Int) - 1 + 1 = u.length := by omega
  have hrun := trimEnd_eq (strlen_append hw rest) (by simp) hr hlast
  rw [hsize, hsucc] at hrun
  have hlen := congrArg List.length ht
  rw [List.length_append] at hlen
  rw [hrun]
  by_cases hcut : u.length - 1 < (c :: w).length - 1
  · have hnil : t ≠ [] := by
      rintro rfl
      rw [List.length_nil] at hlen
      omega
    obtain ⟨buf, hset, hstr⟩ := str_cut hw u t (nul :: rest) ht hnil
    rw [if_pos hcut]
    refine ⟨fun buf' hbuf => ?_, fun hsmall => ⟨buf, ?_⟩⟩
    · obtain ⟨k, hk, hbuf⟩ := Option.bind_eq_some_iff.1 hbuf
      have hk' : k = u.length := by
        unfold int at hk
        split at hk
        · exact (Option.some.inj hk).symm
        · cases hk
      rw [hk', hset] at hbuf
      cases hbuf
      exact hstr
    · have hfits : u.length < 2 ^ 31 := by omega
      rw [int_nat hfits]
      exact hset
  · have hnil : t = [] := List.length_eq_zero_iff.1 (by omega)
    rw [hnil, List.append_nil] at ht
    rw [if_neg hcut]
    refine ⟨fun buf hbuf => ?_, fun _ => ⟨_, rfl⟩⟩
    cases hbuf
    rw [str_append hw, ht]

/-- `softTrim` once its loops have stopped. -/
theorem softTrim_eq {buf : List Char} {len : Nat} {l i r j e : Int} (hlen : strlen nul buf = some len)
    (hget : get buf 0 = some c) (hc : c ≠ nul) (hl : toInt len = l)
    (hskip : skipBlanks buf buf.length 0 = some i) (hr : int (l - i) = some r)
    (hdrop : dropBlanks buf buf.length r (l - 1) = some (j, e)) :
    softTrim buf =
      if j < r then (set buf (e + 1) nul).bind fun buf => some (i, buf) else some (i, buf) := by
  unfold softTrim
  rw [hlen, Option.bind_eq_bind, Option.bind_some, hl, hget]
  simp only [Option.bind_eq_bind, Option.bind_some, if_neg hc]
  rw [hskip]
  simp only [Option.bind_some]
  rw [hr]
  simp only [Option.bind_some]
  rw [hdrop]
  rfl

/-- `soft_trim` behind `p`, where it takes `m` characters for the rest of the string. -/
theorem softTrim_run (hp : Blank p) (hw : nul ∉ p ++ w) (hc : w.head? = some c)
    (hb : isBlank c = false) {m : Nat} (hm : toInt (p ++ w).length = ((p.length + m : Nat) : Int))
    (hle : m ≤ w.length) (hin : p.length + m < 2 ^ 31) :
    ∃ buf, softTrim (p ++ w ++ [nul]) = some ((p.length : Int), buf) ∧
      str nul (buf.drop p.length) =
        if ((w.take m).rdropWhile isBlank).length < m then (w.take m).rdropWhile isBlank else w := by
  obtain ⟨w, rfl⟩ : ∃ t, w = c :: t := List.head?_eq_some_iff.1 hc
  have hwn : nul ∉ c :: w := fun hm => hw (List.mem_append_right _ hm)
  obtain ⟨t, ht⟩ := rdropWhile_cut (c :: w) m
  have htake : ((c :: w).take m).length = m := by
    rw [List.length_take]
    omega
  have hskip : skipBlanks (p ++ c :: w ++ [nul]) (p ++ c :: w ++ [nul]).length 0 =
      some (p.length : Int) := by
    rw [skipBlanks_front hp List.cons_append hb, if_pos (by omega)]
  have hrest : int (((p.length + m : Nat) : Int) - p.length) = some (m : Int) := by
    have hcast : ((p.length + m : Nat) : Int) - p.length = m := by omega
    rw [hcast, int_nat (by omega)]
  have hdrop : dropBlanks (p ++ c :: w ++ [nul]) (p ++ c :: w ++ [nul]).length m
      (((p.length + m : Nat) : Int) - 1) =
        some (((((c :: w).take m).rdropWhile isBlank).length : Int),
          (p.length : Int) + (((c :: w).take m).rdropWhile isBlank).length - 1) := by
    have hturns : ((c :: w).take m).length < (p ++ c :: w ++ [nul]).length := by
      simp only [htake, List.length_append, List.length_singleton]
      omega
    have hrun := @dropBlanks_run p _ _ (by rw [htake]; omega) hturns ((c :: w).drop m ++ [nul])
    rw [← List.append_assoc ((c :: w).take m), List.take_append_drop, htake] at hrun
    have hidx : (p.length : Int) + m - 1 = ((p.length + m : Nat) : Int) - 1 := by omega
    rw [hidx] at hrun
    simpa using hrun
  generalize ((c :: w).take m).rdropWhile isBlank = u at ht hdrop
  have hget : get (p ++ c :: w ++ [nul]) 0 = some ((p ++ c :: w).headD c) := by
    cases p <;> simp [Buffer.get]
  have hhead : (p ++ c :: w).headD c ≠ nul := by
    cases p with
    | nil => exact fun he => hw (he ▸ List.mem_cons_self)
    | cons b p => exact fun he => hw (he ▸ List.mem_cons_self)
  have hsucc : (p.length : Int) + u.length - 1 + 1 = ((p ++ u).length : Nat) := by
    rw [List.length_append]
    omega
  have hrun := softTrim_eq (strlen_append hw []) hget hhead hm hskip hrest hdrop
  rw [hsucc] at hrun
  rw [hrun]
  by_cases hcut : u.length < m
  · cases t with
    | nil =>
      have hlen := congrArg List.length ht
      rw [List.append_nil] at hlen
      omega
    | cons b t =>
      have hun : nul ∉ u := fun hm => hwn (ht ▸ List.mem_append_left _ hm)
      have hbuf : p ++ c :: w ++ [nul] = (p ++ u) ++ b :: (t ++ [nul]) := by
        rw [ht]
        simp
      rw [if_pos hcut, if_pos (Int.ofNat_lt.2 hcut), hbuf, set_append]
      refine ⟨_, rfl, ?_⟩
      rw [List.append_assoc, List.drop_left, str_append hun]
  · rw [if_neg hcut, if_neg (mt Int.ofNat_lt.1 hcut)]
    refine ⟨_, rfl, ?_⟩
    rw [List.append_assoc, List.drop_left, str_append hwn]

/-- Where the length is negative as an `int`, `soft_trim` leaves the end as it is. -/
theorem softTrim_negative (hw : nul ∉ w) (hc : w.head? = some c) (hb : isBlank c = false)
    (hm : toInt w.length < 0) : softTrim (w ++ [nul]) = some (0, w ++ [nul]) := by
  obtain ⟨w, rfl⟩ : ∃ t, w = c :: t := List.head?_eq_some_iff.1 hc
  have hskip := skipBlanks_front (p := []) (w := c :: w) (fun x hx => nomatch hx) rfl hb
  rw [List.nil_append, if_pos (by decide)] at hskip
  have hrest : int (toInt (c :: w).length - 0) = some (toInt (c :: w).length) := by
    rw [Int.sub_zero]
    exact if_pos ⟨toInt_le _, by omega⟩
  have hdrop : dropBlanks (c :: w ++ [nul]) (c :: w ++ [nul]).length (toInt (c :: w).length)
      (toInt (c :: w).length - 1) = some (toInt (c :: w).length, toInt (c :: w).length - 1) := by
    rw [List.length_append, List.length_singleton, dropBlanks, if_neg (by omega)]
    rfl
  have hget : get (c :: w ++ [nul]) 0 = some c := rfl
  have hhead : c ≠ nul := fun he => hw (he ▸ List.mem_cons_self)
  rw [softTrim_eq (strlen_append hw []) hget hhead rfl hskip hrest hdrop, if_neg (Int.lt_irrefl _)]
  rfl

theorem trimEnd_empty (rest : List Char) : trimEnd (nul :: rest) = none := by
  have hlen : strlen nul (nul :: rest) = some 0 := strlen_append (s := []) (by simp) rest
  have hlast : lastBlanks (nul :: rest) (nul :: rest).length (toInt (sizePred 0)) = none := by
    have hi : toInt (sizePred 0) = -1 := by decide
    rw [List.length_cons, lastBlanks, hi, get_neg (by decide)]
    rfl
  simp only [trimEnd, hlen, Option.bind_eq_bind, Option.bind_some, hlast, Option.bind_none]

theorem trimString_eq (hs : nul ∉ s) :
    trimString (s ++ [nul]) =
      (skipBlanks (s ++ [nul]) (s ++ [nul]).length 0).bind fun i =>
        if i > 0 then
          (shiftLoop i (s ++ [nul]).length 0 (s ++ [nul])).bind fun jb =>
            (set jb.2 jb.1 nul).bind trimEnd
        else trimEnd (s ++ [nul]) := by
  have htake : (s ++ [nul]).take (s.length + 1) = s ++ [nul] := List.take_of_length_le (by simp)
  unfold trimString
  rw [strlen_append hs, Option.bind_eq_bind, Option.bind_some, htake]
  rfl

theorem trimString_keep (hw : nul ∉ w) {v : List Char} (hv : w ++ [nul] = c :: v)
    (hb : isBlank c = false) : trimString (w ++ [nul]) = trimEnd (w ++ [nul]) := by
  have hskip := skipBlanks_front (p := []) (fun x hx => nomatch hx) hv hb
  rw [List.nil_append, if_pos (by decide)] at hskip
  rw [trimString_eq hw, hskip, Option.bind_some, if_neg (by decide)]

/-- The string is shifted to the front. -/
theorem trimString_shift (hp : Blank p) (hne : p ≠ []) (hs : nul ∉ p ++ w) {v : List Char}
    (hv : w ++ [nul] = c :: v) (hb : isBlank c = false) (hlen : (p ++ w).length < 2 ^ 31) :
    ∃ rest, trimString (p ++ w ++ [nul]) = trimEnd (w ++ nul :: rest) := by
  have hpos := List.length_pos_iff.2 hne
  have hpn : nul ∉ p := fun hm => hs (List.mem_append_left _ hm)
  have hwn : nul ∉ w := fun hm => hs (List.mem_append_right _ hm)
  rw [List.length_append] at hlen
  have hskip := skipBlanks_front hp hv hb
  rw [if_pos (by omega)] at hskip
  obtain ⟨d, rest, hshift⟩ : ∃ d rest,
      shiftLoop p.length (p ++ w ++ [nul]).length 0 (p ++ w ++ [nul]) =
        some (((w.length + 1 : Nat) : Int), w ++ nul :: d :: rest) := by
    have hturns : w.length + 2 ≤ (p ++ w ++ [nul]).length := by
      simp only [List.length_append, List.length_singleton]
      omega
    have hrun := shiftLoop_run (x := []) (by simp) hpn hwn hne (by simpa using hlen) hturns
    rw [List.nil_append, List.nil_append, List.length_nil, Nat.zero_add, ← List.append_assoc] at hrun
    exact hrun
  have hset : set (w ++ nul :: d :: rest) ((w.length + 1 : Nat) : Int) nul =
      some (w ++ nul :: nul :: rest) := by
    have hend := set_append (w ++ [nul]) d rest nul
    rwa [List.append_assoc, List.append_assoc, List.length_append] at hend
  refine ⟨nul :: rest, ?_⟩
  rw [trimString_eq hs, hskip, Option.bind_some, if_pos (by omega), hshift, Option.bind_some, hset,
    Option.bind_some]

/-- Behind blanks, a string that is too long has no value. -/
theorem trimString_long (hp : Blank p) (hne : p ≠ []) (hs : nul ∉ p ++ w) {v : List Char}
    (hv : w ++ [nul] = c :: v) (hb : isBlank c = false) (hlen : 2 ^ 31 ≤ (p ++ w).length) :
    trimString (p ++ w ++ [nul]) = none := by
  have hpos := List.length_pos_iff.2 hne
  have hskip := skipBlanks_front hp hv hb
  rw [trimString_eq hs, hskip]
  by_cases hin : p.length < 2 ^ 31
  · have hshift : shiftLoop p.length (p ++ w ++ [nul]).length 0 (p ++ w ++ [nul]) = none :=
      shiftLoop_overflow hs hlen hpos (show 0 + p.length ≤ 2 ^ 31 by omega) _
    rw [if_pos hin, Option.bind_some, if_pos (by omega), hshift, Option.bind_none]
  · rw [if_neg hin, Option.bind_none]

/-! ## Where the trimmers work -/

/-- `soft_trim` leaves `*str` at the text of `s` without blanks and tabs around it. -/
def SoftTrims (s : CStr) : Prop :=
  ∃ (i : Nat) (buf : List Char), softTrim (s ++ [nul]) = some ((i : Int), buf) ∧
    str nul (buf.drop i) = CStr.softTrim s

/-- And `trim_string` returns it. -/
def StringTrims (s : CStr) : Prop :=
  ∃ buf, trimString (s ++ [nul]) = some buf ∧ str nul buf = CStr.softTrim s

/-- A string from 2 GiB on whose text is where its wrapped length says: all of it at 2 GiB, and
from 4 GiB on what the low half of its last index covers. -/
def Wraps (s : CStr) : Prop :=
  (s.length = 2 ^ 31 ∧ ¬Blank (s.drop (s.length - 1))) ∨
    (2 ^ 32 < s.length ∧ (s.length - 1) % 2 ^ 32 < 2 ^ 31 - 1 ∧
      Blank (s.drop ((s.length - 1) % 2 ^ 32)))

/-- The strings that are trimmed: not blank, and without a leading blank if they are long. -/
def Trimmable (s : CStr) : Prop :=
  ¬Blank s ∧ (s.length < 2 ^ 31 ∨ (¬Blank (s.take 1) ∧ Wraps s))

theorem trimString_blank (hs : nul ∉ s) (hp : Blank s) : trimString (s ++ [nul]) = none := by
  have hnul : isBlank nul = false := by decide
  have hs' : nul ∉ s ++ ([] : CStr) := by rwa [List.append_nil]
  by_cases hne : s = []
  · rw [hne, trimString_keep (v := []) (by simp) rfl hnul]
    exact trimEnd_empty []
  · by_cases hlen : s.length < 2 ^ 31
    · obtain ⟨rest, hrun⟩ := trimString_shift (w := []) (v := []) hp hne hs' rfl hnul
        (by rwa [List.append_nil])
      rw [List.append_nil] at hrun
      exact hrun.trans (trimEnd_empty rest)
    · have hlong := trimString_long (w := []) (v := []) hp hne hs' rfl hnul
        (by rw [List.append_nil]; omega)
      rwa [List.append_nil] at hlong

section
variable (hc : w.head? = some c) (hb : isBlank c = false)
include hc hb

theorem softTrim_split (hp : Blank p) : CStr.softTrim (p ++ w) = w.rdropWhile isBlank := by
  obtain ⟨w, rfl⟩ : ∃ t, w = c :: t := List.head?_eq_some_iff.1 hc
  rw [CStr.softTrim, List.dropWhile_append_of_pos hp, List.dropWhile_cons_of_neg (by simp [hb])]

theorem softTrims_small (hp : Blank p) (hn : nul ∉ p ++ w) (hlen : (p ++ w).length < 2 ^ 31) :
    SoftTrims (p ++ w) := by
  have hm : toInt (p ++ w).length = ((p.length + w.length : Nat) : Int) := by
    rw [toInt_small hlen, List.length_append]
  obtain ⟨buf, hrun, hstr⟩ := softTrim_run hp hn hc hb hm (Nat.le_refl _)
    (by rwa [← List.length_append])
  refine ⟨p.length, buf, hrun, ?_⟩
  rw [hstr, softTrim_split hc hb hp, List.take_length]
  split
  · rfl
  · rename_i hfull
    exact ((List.rdropWhile_prefix isBlank w).eq_of_length_le (Nat.le_of_not_lt hfull)).symm

theorem stringTrims_small (hp : Blank p) (hn : nul ∉ p ++ w) (hlen : (p ++ w).length < 2 ^ 31) :
    StringTrims (p ++ w) := by
  obtain ⟨t, hw⟩ : ∃ t, w = c :: t := List.head?_eq_some_iff.1 hc
  have hv : w ++ [nul] = c :: (t ++ [nul]) := by rw [hw, List.cons_append]
  have hwn : nul ∉ w := fun hm => hn (List.mem_append_right _ hm)
  have hpos : 0 < w.length := by rw [hw]; exact Nat.zero_lt_succ _
  obtain ⟨rest, hrun⟩ : ∃ rest, trimString (p ++ w ++ [nul]) = trimEnd (w ++ nul :: rest) := by
    by_cases hne : p = []
    · rw [hne]
      exact ⟨[], trimString_keep hwn hv hb⟩
    · exact trimString_shift hp hne hn hv hb hlen
  rw [List.length_append] at hlen
  obtain ⟨hstr, hsome⟩ := trimEnd_run hwn hc hb (toInt_small (by omega))
    (show w.length - 1 < w.length by omega) (by omega) rest
  obtain ⟨buf, hbuf⟩ := hsome (Or.inr (by omega))
  refine ⟨buf, hrun.trans hbuf, ?_⟩
  rw [hstr buf hbuf, softTrim_split hc hb hp, List.take_of_length_le (by omega)]

end

section
variable (hc : w.head? = some c) (hb : isBlank c = false)
include hc hb

theorem softTrim_front : CStr.softTrim w = w.rdropWhile isBlank :=
  softTrim_split (p := []) hc hb fun _ hx => nomatch hx

variable (hn : nul ∉ w)
include hn

theorem trimString_front : trimString (w ++ [nul]) = trimEnd (w ++ [nul]) := by
  obtain ⟨t, hw⟩ : ∃ t, w = c :: t := List.head?_eq_some_iff.1 hc
  have hv : w ++ [nul] = c :: (t ++ [nul]) := by rw [hw, List.cons_append]
  exact trimString_keep hn hv hb

theorem softTrims_negative (hm : toInt w.length < 0) :
    SoftTrims w ↔ w.rdropWhile isBlank = w := by
  have hrun := softTrim_negative hn hc hb hm
  have hstr : str nul (w ++ [nul]) = w := str_append hn []
  constructor
  · rintro ⟨i, buf, hbuf, htext⟩
    rw [hrun] at hbuf
    cases hbuf
    rw [softTrim_front hc hb] at htext
    exact htext.symm.trans hstr
  · intro hfull
    refine ⟨0, _, hrun, ?_⟩
    rw [softTrim_front hc hb, hfull]
    exact hstr

/-- Where `soft_trim` takes the string for `m` characters. -/
theorem softTrims_wraps {m : Nat} (hm : toInt w.length = m) (hle : m ≤ w.length)
    (hin : m < 2 ^ 31) :
    (SoftTrims w → (w.rdropWhile isBlank).length < m ∨ w.rdropWhile isBlank = w) ∧
      ((w.rdropWhile isBlank).length < m → SoftTrims w) := by
  have hm' : toInt ([] ++ w).length = ((([] : CStr).length + m : Nat) : Int) := by
    rwa [List.nil_append, List.length_nil, Nat.zero_add]
  obtain ⟨buf, hrun, hstr⟩ := softTrim_run (p := []) (fun _ hx => nomatch hx) hn hc hb hm' hle
    (by rwa [List.length_nil, Nat.zero_add])
  rw [List.nil_append] at hrun
  constructor
  · rintro ⟨i, buf', hbuf, htext⟩
    rw [hrun] at hbuf
    cases hbuf
    rw [softTrim_front hc hb] at htext
    have hres := htext.symm.trans hstr
    split at hres
    · rename_i hcut
      exact Or.inl (hres ▸ hcut)
    · exact Or.inr hres
  · intro hcut
    have htake := rdropWhile_take (rdropWhile_length_iff.1 (Nat.le_of_lt hcut))
    refine ⟨0, buf, hrun, ?_⟩
    rw [softTrim_front hc hb]
    rw [htake, if_pos hcut] at hstr
    exact hstr

/-- Where `trim_string` takes `r` for the last index. -/
theorem stringTrims_wraps {r : Nat} (hr : toInt (w.length - 1) = r) (hlt : r < w.length)
    (hin : r < 2 ^ 31) :
    (StringTrims w → (w.rdropWhile isBlank).length ≤ r + 1) ∧
      ((w.rdropWhile isBlank).length ≤ r + 1 →
        (w.rdropWhile isBlank).length < 2 ^ 31 ∨ r + 1 = w.length → StringTrims w) := by
  obtain ⟨hstr, hsome⟩ := trimEnd_run hn hc hb hr hlt hin []
  constructor
  · rintro ⟨buf, hbuf, htext⟩
    rw [trimString_front hc hb hn] at hbuf
    rw [softTrim_front hc hb] at htext
    rw [← htext, hstr buf hbuf]
    exact (rdropWhile_length_le _).trans (List.length_take_le _ _)
  · intro hle hfits
    rw [← rdropWhile_take (rdropWhile_length_iff.1 hle)] at hfits
    obtain ⟨buf, hbuf⟩ := hsome hfits
    refine ⟨buf, (trimString_front hc hb hn).trans hbuf, ?_⟩
    rw [hstr buf hbuf, softTrim_front hc hb, rdropWhile_take (rdropWhile_length_iff.1 hle)]

theorem not_stringTrims_negative (hr : toInt (w.length - 1) < 0) : ¬StringTrims w := by
  obtain ⟨t, hw⟩ : ∃ t, w = c :: t := List.head?_eq_some_iff.1 hc
  have hpos : 0 < w.length := by rw [hw]; exact Nat.zero_lt_succ _
  rintro ⟨buf, hbuf, -⟩
  rw [trimString_front hc hb hn] at hbuf
  have hlast : lastBlanks (w ++ [nul]) (w ++ [nul]).length (toInt (w.length - 1)) = none := by
    rw [List.length_append, List.length_singleton, lastBlanks, get_neg hr]
    rfl
  unfold trimEnd at hbuf
  rw [strlen_append hn, Option.bind_eq_bind, Option.bind_some, sizePred_pos hpos] at hbuf
  simp only [hlast, Option.bind_eq_bind, Option.bind_none] at hbuf
  cases hbuf

/-- Of the long strings without a leading blank, both trim just those that wrap around well. -/
theorem long_trims_iff (hlen : 2 ^ 31 ≤ w.length) : SoftTrims w ∧ StringTrims w ↔ Wraps w := by
  have hle := rdropWhile_length_le w
  have hself : w.rdropWhile isBlank = w ↔ ¬(w.rdropWhile isBlank).length ≤ w.length - 1 := by
    constructor
    · intro hfull
      rw [hfull]
      omega
    · intro hmore
      exact (List.rdropWhile_prefix isBlank w).eq_of_length_le (by omega)
  unfold Wraps
  rw [← rdropWhile_length_iff, ← rdropWhile_length_iff]
  by_cases htwo : w.length = 2 ^ 31
  · have hsoft := softTrims_negative hc hb hn (toInt_neg (by omega))
    have hstring := stringTrims_wraps hc hb hn
      (toInt_small (show w.length - 1 < 2 ^ 31 by omega)) (by omega) (by omega)
    rw [hsoft, hself]
    constructor
    · exact fun h => Or.inl ⟨htwo, h.1⟩
    · rintro (⟨-, hmore⟩ | ⟨hmore, -⟩)
      · exact ⟨hmore, hstring.2 (by omega) (Or.inr (by omega))⟩
      · omega
  · by_cases hneg : 2 ^ 31 ≤ (w.length - 1) % 2 ^ 32
    · constructor
      · exact fun h => absurd h.2 (not_stringTrims_negative hc hb hn (toInt_neg hneg))
      · rintro (⟨h, -⟩ | ⟨-, h, -⟩)
        · exact absurd h htwo
        · omega
    · have hstring := stringTrims_wraps hc hb hn (toInt_mod (by omega)) (by omega) (by omega)
      by_cases hlast : (w.length - 1) % 2 ^ 32 = 2 ^ 31 - 1
      · have hsoft := softTrims_negative hc hb hn (toInt_neg (by omega))
        constructor
        · intro h
          have hfull := congrArg List.length (hsoft.1 h.1)
          have hend := hstring.1 h.2
          omega
        · rintro (⟨h, -⟩ | ⟨-, h, -⟩)
          · exact absurd h htwo
          · omega
      · have hsoft := softTrims_wraps hc hb hn (toInt_mod (show w.length % 2 ^ 32 < 2 ^ 31 by omega))
          (by omega) (by omega)
        constructor
        · intro h
          have hend := hstring.1 h.2
          rcases hsoft.1 h.1 with hcut | hfull
          · exact Or.inr ⟨by omega, by omega, by omega⟩
          · have := hself.1 hfull
            omega
        · rintro (⟨h, -⟩ | ⟨-, -, hcut⟩)
          · exact absurd h htwo
          · exact ⟨hsoft.2 (by omega), hstring.2 (by omega) (Or.inl (by omega))⟩

end

/-- **The trimmers.** Both yield the string without blanks and tabs around it, at indices of the
string only, just if the string is trimmable. -/
theorem trimmers_iff (hs : nul ∉ s) : SoftTrims s ∧ StringTrims s ↔ Trimmable s := by
  by_cases hblank : Blank s
  · constructor
    · rintro ⟨-, buf, hbuf, -⟩
      rw [trimString_blank hs hblank] at hbuf
      cases hbuf
    · exact fun h => absurd hblank h.1
  obtain ⟨p, w, c, rfl, hp, hc, hb⟩ := split_blank hblank
  rw [Trimmable, iff_true_intro hblank, true_and]
  by_cases hlen : (p ++ w).length < 2 ^ 31
  · constructor
    · exact fun _ => Or.inl hlen
    · exact fun _ => ⟨softTrims_small hc hb hp hs hlen, stringTrims_small hc hb hp hs hlen⟩
  · rw [or_iff_right hlen]
    cases p with
    | nil =>
      obtain ⟨t, rfl⟩ : ∃ t, w = c :: t := List.head?_eq_some_iff.1 hc
      have hfirst : ¬Blank (([] ++ c :: t).take 1) := fun h => by
        rw [h c List.mem_cons_self] at hb
        cases hb
      rw [and_iff_right hfirst]
      exact long_trims_iff hc hb hs (Nat.le_of_not_lt hlen)
    | cons b p =>
      have hfirst : Blank ((b :: p ++ w).take 1) := fun x hx => by
        rw [List.mem_singleton.1 hx]
        exact hp b List.mem_cons_self
      obtain ⟨t, hw⟩ : ∃ t, w = c :: t := List.head?_eq_some_iff.1 hc
      have hv : w ++ [nul] = c :: (t ++ [nul]) := by rw [hw, List.cons_append]
      constructor
      · rintro ⟨-, buf, hbuf, -⟩
        rw [trimString_long hp (List.cons_ne_nil b p) hs hv hb (Nat.le_of_not_lt hlen)] at hbuf
        cases hbuf
      · exact fun h => absurd hfirst h.1

theorem trimmers_iff_padded : SoftTrims [' ', 'a', ' ', 'b', '\t'] ∧
    StringTrims [' ', 'a', ' ', 'b', '\t'] :=
  (trimmers_iff (by decide)).2 ⟨by decide, Or.inl (by decide)⟩

/-- For the empty string, `trim_string` reads the cell before its buffer. -/
theorem empty_untrimmed :
    ¬∀ s : CStr, nul ∉ s → SoftTrims s ∧ StringTrims s := by
  intro h
  obtain ⟨-, buf, hbuf, -⟩ := h [] List.not_mem_nil
  rw [trimString_blank List.not_mem_nil fun _ hx => nomatch hx] at hbuf
  cases hbuf

end Auxil
