import IncludeAudit.Files.Store
import Mathlib.Data.List.DropRight

/-!
# Paths and the files to which they lead

A path that can be read leads to the file with the names that `namesOf` gives. Two paths may lead to
one file and still differ in their components: `./a` and `a` do, and `b/../a`.

* `text?_of_read`, `getLast?_of_read`: what a path that can be read says of its file;
* `Plain`: a path of names alone. Its components are told by its file (`components_of_plain`);
* `Plain.join`, `Plain.parent?`: plain paths make plain paths.
-/

namespace IncludeAudit

/-! ## Segments -/

namespace Path

variable {p q dir : Path} {name : String} {cs : List Char} {a b : List (List Char)}

theorem splitSlashes_eq (cs : List Char) : splitSlashes cs = cs.splitOn '/' := by
  induction cs with
  | nil => rfl
  | cons c cs ih =>
    rw [List.splitOn_cons_eq_if_modifyHead, ← ih]
    split
    · rename_i h
      rw [beq_iff_eq.1 h, splitSlashes]
    · rename_i h
      have hne := List.splitOn_ne_nil '/' cs
      rw [← ih] at hne
      rw [splitSlashes]
      · split
        · rename_i hnil
          exact absurd hnil hne
        · rename_i hcons
          rw [hcons, List.modifyHead_cons]
      · exact fun hc => h (beq_iff_eq.2 hc)

theorem splitSlashes_append (cs ds : List Char) :
    splitSlashes (cs ++ '/' :: ds) = splitSlashes cs ++ splitSlashes ds := by
  simp only [splitSlashes_eq, List.splitOn_append_cons_self]

theorem splitSlashes_ne_nil (cs : List Char) : splitSlashes cs ≠ [] := by
  rw [splitSlashes_eq]
  exact List.splitOn_ne_nil _ _

theorem not_mem_of_mem_splitSlashes {segment : List Char} (h : segment ∈ splitSlashes cs) :
    '/' ∉ segment := by
  fun_induction splitSlashes cs generalizing segment with
  | case1 =>
    rw [List.mem_singleton.1 h]
    exact List.not_mem_nil
  | case2 cs ih =>
    rcases List.mem_cons.1 h with rfl | h
    · exact List.not_mem_nil
    · exact ih h
  | case3 c cs _ hnil => exact absurd hnil (splitSlashes_ne_nil cs)
  | case4 c cs hc part parts hcons ih =>
    rw [hcons] at ih
    rcases List.mem_cons.1 h with rfl | h
    · rw [List.mem_cons, not_or]
      exact ⟨fun he => hc he.symm, ih List.mem_cons_self⟩
    · exact ih (List.mem_cons_of_mem _ h)

theorem splitSlashes_joinSlashes (h : ∀ segment ∈ a, '/' ∉ segment) (ha : a ≠ []) :
    splitSlashes (joinSlashes a) = a := by
  rw [splitSlashes_eq, joinSlashes, List.splitOn_intercalate _ h ha]

/-! ## Plain paths -/

/-- A path of names alone: without a slash or a point in front, and without two points. -/
def Plain (p : Path) : Prop :=
  ∀ part ∈ p.components, ∃ name, part = .name name

/-- The segments of a plain path. -/
structure PlainSegments (a : List (List Char)) : Prop where
  not_here : a.head? ≠ some ['.']
  not_root : a.head? = some [] → a.length = 1
  not_up : ['.', '.'] ∉ a

theorem names_partsOf :
    (∀ part ∈ partsOf a, ∃ name, part = .name name) ↔ ['.', '.'] ∉ a := by
  constructor
  · intro h hmem
    have hup : .up ∈ partsOf a :=
      List.mem_map.2 ⟨['.', '.'], List.mem_filter.2 ⟨hmem, by decide⟩, by decide⟩
    obtain ⟨name, he⟩ := h .up hup
    cases he
  · intro h part hpart
    obtain ⟨segment, hmem, rfl⟩ := List.mem_map.1 hpart
    have hne : segment ≠ ['.', '.'] := fun he => h (he ▸ (List.mem_filter.1 hmem).1)
    exact ⟨_, if_neg hne⟩

theorem plain_iff : p.Plain ↔ PlainSegments p.segments := by
  unfold Plain components
  split
  · rename_i s rest heq
    refine iff_of_false (fun h => ?_) fun h => ?_
    · obtain ⟨name, he⟩ := h .root List.mem_cons_self
      cases he
    · have hlen := h.not_root (by rw [heq, List.head?_cons])
      rw [heq] at hlen
      cases hlen
  · rename_i rest heq
    refine iff_of_false (fun h => ?_) fun h => h.not_here (by rw [heq, List.head?_cons])
    obtain ⟨name, he⟩ := h .here List.mem_cons_self
    cases he
  · rename_i hroot hhere
    rw [names_partsOf]
    refine ⟨fun h => ⟨fun he => ?_, fun he => ?_, h⟩, PlainSegments.not_up⟩
    · obtain ⟨rest, hrest⟩ := List.head?_eq_some_iff.1 he
      exact hhere rest hrest
    · obtain ⟨rest, hrest⟩ := List.head?_eq_some_iff.1 he
      cases rest with
      | nil => rw [hrest, List.length_singleton]
      | cons s rest => exact absurd hrest (hroot s rest)

theorem PlainSegments.of_append (h : PlainSegments (a ++ b)) : PlainSegments a := by
  cases a with
  | nil => exact ⟨by simp, by simp, List.not_mem_nil⟩
  | cons s a =>
    refine ⟨h.not_here, fun hs => ?_, fun hup => h.not_up (List.mem_append_left _ hup)⟩
    have hlen := h.not_root hs
    simp only [List.cons_append, List.length_cons, List.length_append] at hlen ⊢
    omega

/-- Segments may follow, unless they would make the path absolute. -/
theorem PlainSegments.append (h : PlainSegments a) (hne : a ≠ []) (hempty : a ≠ [[]])
    (hb : ['.', '.'] ∉ b) : PlainSegments (a ++ b) := by
  cases a with
  | nil => exact absurd rfl hne
  | cons s a =>
    refine ⟨h.not_here, fun hs => ?_, ?_⟩
    · have hlen := h.not_root hs
      obtain rfl : s = [] := Option.some.inj hs
      obtain rfl : a = [] := List.length_eq_zero_iff.1 (Nat.succ.inj hlen)
      exact absurd rfl hempty
    · rw [List.mem_append, not_or]
      exact ⟨h.not_up, hb⟩

theorem Plain.join (hd : dir.Plain) (hn : (Path.mk name).Plain) : (dir.join name).Plain := by
  unfold Path.join
  split
  · exact hn
  · rename_i h
    rw [Bool.or_eq_true, not_or] at h
    rw [plain_iff] at hd hn ⊢
    split
    · rename_i hlast
      obtain ⟨cs, hcs⟩ := List.getLast?_eq_some_iff.1 hlast
      have hdir : dir.segments = splitSlashes cs ++ [[]] := by
        rw [segments, hcs, splitSlashes_append]
        rfl
      have hjoin : (Path.mk (dir.text ++ name)).segments =
          splitSlashes cs ++ (Path.mk name).segments := by
        rw [segments, String.toList_append, hcs, List.append_assoc]
        exact splitSlashes_append cs _
      rw [hdir] at hd
      rw [hjoin]
      refine hd.of_append.append (splitSlashes_ne_nil cs) (fun he => ?_) hn.not_up
      have hlen := hd.not_root (by rw [he]; rfl)
      rw [he] at hlen
      cases hlen
    · have hjoin : (Path.mk (dir.text ++ "/" ++ name)).segments =
          dir.segments ++ (Path.mk name).segments := by
        rw [segments, String.toList_append, String.toList_append, List.append_assoc]
        exact splitSlashes_append dir.text.toList _
      rw [hjoin]
      refine hd.append (splitSlashes_ne_nil _) (fun he => h.2 ?_) hn.not_up
      have htext := congrArg joinSlashes he
      rw [segments, splitSlashes_eq, joinSlashes, List.intercalate_splitOn] at htext
      rw [String.isEmpty_iff, ← String.toList_inj, htext]
      rfl

theorem isPrefix_dropIdleEnd (a : List (List Char)) : dropIdleEnd a <+: a :=
  List.rdropWhile_prefix isIdle a

/-- The parent of a plain path is made of the first segments of the path. -/
theorem Plain.parent? (hp : p.Plain) (h : p.parent? = some q) : q.Plain := by
  rw [plain_iff] at hp ⊢
  unfold Path.parent? at h
  split at h
  · rename_i heq
    have hlen := hp.not_root (by rw [heq, List.head?_cons])
    rw [heq] at hlen
    cases hlen
  · rename_i heq
    exact absurd (by rw [heq, List.head?_cons]) hp.not_here
  · obtain ⟨a, ha, rfl⟩ := Option.map_eq_some_iff.1 h
    have hprefix : a <+: p.segments := by
      unfold parentBelow at ha
      split at ha
      · cases ha
      · cases ha
        exact (isPrefix_dropIdleEnd _).trans ((List.dropLast_prefix _).trans (isPrefix_dropIdleEnd _))
    rw [segments, String.toList_ofList]
    by_cases hnil : a = []
    · subst hnil
      exact ⟨by decide, fun _ => rfl, by decide⟩
    · obtain ⟨rest, hrest⟩ := hprefix
      rw [splitSlashes_joinSlashes _ hnil]
      · rw [← hrest] at hp
        exact hp.of_append
      · exact fun segment hs => not_mem_of_mem_splitSlashes (hrest ▸ List.mem_append_left _ hs)

end Path

/-! ## Names -/

namespace FileStore

variable {s : FileStore} {p : Path} {text : String} {names : List String}

/-- The names on the way after one more part. -/
def nameAfter (names : List String) : PathPart → List String
  | .name n => names ++ [n]
  | .up => names.dropLast
  | .root | .here => names

theorem namesOf_eq (p : Path) : namesOf p = p.components.foldl nameAfter [] :=
  rfl

/-- Outside the working directory no file is found. -/
theorem foldlM_outside {parts : List PathPart} :
    parts.foldlM s.follow .outside ≠ .ok (.file text) := by
  induction parts with
  | nil => exact fun h => nomatch h
  | cons part parts ih =>
    rw [List.foldlM_cons]
    cases part with
    | root | here | up => exact ih
    | name n => exact fun h => nomatch h

/-- A file is the end of the way. -/
theorem foldlM_file {parts : List PathPart} {spot : Spot} {text' : String}
    (h : parts.foldlM s.follow (.file text') = .ok spot) : parts = [] ∧ spot = .file text' := by
  cases parts with
  | nil => exact ⟨rfl, (Except.ok.inj h).symm⟩
  | cons part parts =>
    rw [List.foldlM_cons] at h
    cases part <;> cases h

/-- The induction is on the parts that are still to be followed. -/
theorem text?_of_foldlM {parts : List PathPart}
    (h : parts.foldlM s.follow (.directory names) = .ok (.file text)) :
    s.text? (parts.foldl nameAfter names) = some text ∧
      ∃ n, parts.getLast? = some (.name n) ∧
        (parts.foldl nameAfter names).getLast? = some n := by
  induction parts generalizing names with
  | nil => cases h
  | cons part parts ih =>
    have further {names'} (hnames : nameAfter names part = names')
        (h : parts.foldlM s.follow (.directory names') = .ok (.file text)) :
        s.text? ((part :: parts).foldl nameAfter names) = some text ∧
          ∃ n, (part :: parts).getLast? = some (.name n) ∧
            ((part :: parts).foldl nameAfter names).getLast? = some n := by
      obtain ⟨htext, n, hlast, hn⟩ := ih h
      rw [List.foldl_cons, hnames]
      exact ⟨htext, n, by rw [List.getLast?_cons, hlast, Option.getD_some], hn⟩
    rw [List.foldlM_cons] at h
    cases part with
    | root => exact absurd h foldlM_outside
    | here => exact further rfl h
    | up =>
      cases names with
      | nil => exact absurd h foldlM_outside
      | cons n names => exact further rfl h
    | name n =>
      rw [follow, enter] at h
      split at h
      · cases h
      · split at h
        · rename_i text' htext
          obtain ⟨rfl, he⟩ := foldlM_file h
          cases he
          exact ⟨htext, n, rfl, List.getLast?_concat⟩
        · split at h
          · exact further rfl h
          · cases h

theorem foldlM_of_readShort (h : s.readShort p = .ok text) :
    p.components.foldlM s.follow (.directory []) = .ok (.file text) := by
  unfold readShort at h
  by_cases hempty : p.text.isEmpty = true
  · rw [if_pos hempty] at h
    cases h
  · rw [if_neg hempty] at h
    cases hfold : p.components.foldlM s.follow (.directory []) with
    | error e =>
      rw [hfold] at h
      cases h
    | ok spot =>
      rw [hfold] at h
      cases spot with
      | directory | outside => cases h
      | file text' =>
        change (if endsAsDirectory p = true then throw FileError.notDirectory
          else pure text') = Except.ok text at h
        split at h <;> cases h
        rfl

theorem foldlM_of_read (h : s.read p = .ok text) :
    p.components.foldlM s.follow (.directory []) = .ok (.file text) := by
  unfold read at h
  split at h
  · cases h
  · split at h
    · cases h
    · exact foldlM_of_readShort h

/-- A path that can be read leads to the file with its names. -/
theorem text?_of_read (h : s.read p = .ok text) : s.text? (namesOf p) = some text :=
  (text?_of_foldlM (foldlM_of_read h)).1

/-- The last part of such a path is the name of the file. -/
theorem getLast?_of_read (h : s.read p = .ok text) :
    ∃ n, p.components.getLast? = some (.name n) ∧ (namesOf p).getLast? = some n :=
  (text?_of_foldlM (foldlM_of_read h)).2

/-! ## Plain paths -/

theorem foldl_nameAfter_of_plain {parts : List PathPart} (h : ∀ part ∈ parts, ∃ n, part = .name n) :
    (parts.foldl nameAfter names).map PathPart.name = names.map .name ++ parts := by
  induction parts generalizing names with
  | nil => simp
  | cons part parts ih =>
    obtain ⟨n, rfl⟩ := h part List.mem_cons_self
    rw [List.foldl_cons, ih fun part hpart => h part (List.mem_cons_of_mem _ hpart)]
    simp [nameAfter]

/-- The components of a plain path are its names. -/
theorem components_of_plain (h : p.Plain) : p.components = (namesOf p).map .name := by
  rw [namesOf_eq, foldl_nameAfter_of_plain h, List.map_nil, List.nil_append]

end FileStore

end IncludeAudit
