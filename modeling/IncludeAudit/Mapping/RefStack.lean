import IncludeAudit.Files.Store

/-!
# Stacks of references

The mapping files that are being read, each because the one before refers to it. The files of a
stack are pairwise different, and none has a longer path than the system admits. There are only
finitely many such paths: `length_paths_lt` bounds the stack, which is why following references
ends.
-/

namespace IncludeAudit

/-! ## Counting texts -/

namespace Text

/-- The number of code points, and one more. -/
def codeBase : Nat :=
  0x110001

/-- A number for each text. -/
def code : List Char → Nat
  | [] => 0
  | c :: cs => (c.toNat + 1) + codeBase * code cs

theorem toNat_succ_lt_codeBase (c : Char) : c.toNat + 1 < codeBase := by
  have : c.toNat < 0x110000 := by
    rcases c.valid with h | ⟨_, h⟩ <;> simp only [Char.toNat, UInt32.toNat] at * <;> omega
  unfold codeBase
  omega

theorem code_injective {cs ds : List Char} (h : code cs = code ds) : cs = ds := by
  induction cs generalizing ds with
  | nil =>
    cases ds with
    | nil => rfl
    | cons d ds => simp [code] at h; omega
  | cons c cs ih =>
    cases ds with
    | nil => simp [code] at h
    | cons d ds =>
      have hc := toNat_succ_lt_codeBase c
      have hd := toNat_succ_lt_codeBase d
      simp only [code] at h
      have hmod := congrArg (· % codeBase) h
      simp only [Nat.add_mul_mod_self_left, Nat.mod_eq_of_lt hc, Nat.mod_eq_of_lt hd] at hmod
      have hdiv : code cs = code ds := by
        have hpos : 0 < codeBase := by decide
        have : codeBase * code cs = codeBase * code ds := by omega
        exact Nat.eq_of_mul_eq_mul_left hpos this
      rw [ih hdiv, Char.toNat_inj.1 (by omega : c.toNat = d.toNat)]

theorem code_lt {cs : List Char} {n : Nat} (h : cs.length ≤ n) : code cs < codeBase.pow n := by
  induction cs generalizing n with
  | nil => exact Nat.pow_pos (by decide : 0 < codeBase)
  | cons c cs ih =>
    cases n with
    | zero => simp at h
    | succ n =>
      have hc := toNat_succ_lt_codeBase c
      have hcs := ih (Nat.le_of_succ_le_succ h)
      have hpow : codeBase.pow (n + 1) = codeBase * codeBase.pow n := Nat.mul_comm _ _
      rw [code, hpow]
      calc c.toNat + 1 + codeBase * code cs
          < codeBase + codeBase * code cs := by omega
        _ = codeBase * (code cs + 1) := by rw [Nat.mul_add, Nat.mul_one, Nat.add_comm]
        _ ≤ codeBase * codeBase.pow n := Nat.mul_le_mul_left _ hcs

/-- Different numbers below a bound are no more than the bound says. -/
theorem length_le_of_lt {ns : List Nat} {n : Nat} (h : ns.Nodup) (hn : ∀ m ∈ ns, m < n) :
    ns.length ≤ n := by
  induction n generalizing ns with
  | zero =>
    cases ns with
    | nil => exact Nat.le_refl _
    | cons m ns => exact absurd (hn m List.mem_cons_self) (Nat.not_lt_zero m)
  | succ n ih =>
    have h1 := ih (h.erase n) fun m hm => by
      have := hn m (List.mem_of_mem_erase hm)
      have : m ≠ n := (h.mem_erase_iff.1 hm).1
      omega
    rw [List.length_erase] at h1
    split at h1 <;> omega

theorem length_le_utf8ByteSize (cs : List Char) : cs.length ≤ (String.ofList cs).utf8ByteSize := by
  induction cs with
  | nil => exact Nat.zero_le _
  | cons c cs ih =>
    have : String.ofList (c :: cs) = String.singleton c ++ String.ofList cs :=
      String.toList_inj.1 (by simp)
    rw [this, String.utf8ByteSize_append, String.utf8ByteSize_singleton]
    have := c.utf8Size_pos
    rw [List.length_cons]
    omega

end Text

/-! ## The stack -/

/-- Mapping files that are being read, the last one first. -/
structure RefStack where
  paths : List Path
  distinct : (paths.map Path.components).Nodup
  short : ∀ p ∈ paths, p.text.utf8ByteSize ≤ FileStore.pathLimit

namespace RefStack

/-- The stack before any file is read. -/
def empty : RefStack :=
  ⟨[], List.nodup_nil, by simp⟩

/-- True of the files on the stack. -/
def contains (s : RefStack) (p : Path) : Bool :=
  (s.paths.map Path.components).contains p.components

/-- The file that is read last. -/
def top? (s : RefStack) : Option Path :=
  s.paths.head?

/-- The stack with one more file. -/
def push (s : RefStack) (p : Path) (fresh : s.contains p = false)
    (short : p.text.utf8ByteSize ≤ FileStore.pathLimit) : RefStack where
  paths := p :: s.paths
  distinct := by
    rw [List.map_cons, List.nodup_cons]
    refine ⟨fun h => ?_, s.distinct⟩
    simp only [contains] at fresh
    rw [List.contains_eq_mem, decide_eq_false_iff_not] at fresh
    exact fresh h
  short := fun q hq => by
    rcases List.mem_cons.1 hq with rfl | hq
    · exact short
    · exact s.short q hq

/-- There are not many different paths of which none is longer than a limit. -/
theorem length_lt_of_short {paths : List Path} {limit : Nat}
    (distinct : (paths.map Path.components).Nodup)
    (short : ∀ p ∈ paths, p.text.utf8ByteSize ≤ limit) :
    paths.length < Text.codeBase.pow limit + 1 := by
  have hcodes : (paths.map fun p => Text.code p.text.toList).Nodup := by
    refine List.Pairwise.map _ (fun p q hpq heq => hpq ?_) (List.pairwise_map.1 distinct)
    obtain ⟨t⟩ := p
    obtain ⟨u⟩ := q
    exact congrArg (fun t => (Path.mk t).components) (String.toList_inj.1 (Text.code_injective heq))
  have hle : (paths.map fun p => Text.code p.text.toList).length ≤ Text.codeBase.pow limit := by
    refine Text.length_le_of_lt hcodes fun n hn => ?_
    obtain ⟨p, hp, rfl⟩ := List.mem_map.1 hn
    refine Text.code_lt (Nat.le_trans ?_ (short p hp))
    have := Text.length_le_utf8ByteSize p.text.toList
    rwa [String.ofList_toList] at this
  rw [List.length_map] at hle
  exact Nat.lt_succ_of_le hle

/-- More files than a stack can have. -/
@[irreducible]
def bound : Nat :=
  Text.codeBase.pow FileStore.pathLimit + 1

theorem length_paths_lt (s : RefStack) : s.paths.length < bound := by
  unfold bound
  exact length_lt_of_short s.distinct s.short

theorem length_paths_push {s : RefStack} {p : Path} {fresh : s.contains p = false}
    {short : p.text.utf8ByteSize ≤ FileStore.pathLimit} :
    (s.push p fresh short).paths.length = s.paths.length + 1 :=
  rfl

end RefStack

end IncludeAudit
