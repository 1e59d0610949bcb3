import Kmi.Strings.Compare

/-! The search for a file in the initial ramdisk, from `src/initrd.c`, with the number
parsing of `include/kmi/utils.h`. The parts of the archive that are read are recorded. -/

namespace Kmi.Initrd

open Kmi.Mem
open Elf (Bytes)
open Strings (CStr strcmp strncmp strcmp_answer strncmp_answer compareLoop_empty compareLoop_ends Differ)

def asciinum (c : UInt8) : ℤ :=
  if 48 ≤ c ∧ c ≤ 57 then c.toNat - 48
  else if 65 ≤ c ∧ c ≤ 70 then c.toNat - 65 + 10
  else if 97 ≤ c ∧ c ≤ 102 then c.toNat - 97 + 10
  else -1

/-- The loop of `convnum`, from the last digit to the first. -/
def convnumFrom (mem : Bytes) (c base : ℕ) : ℕ → ℕ → ℕ → ℕ
  | 0, _, sum => sum
  | len + 1, multiplier, sum =>
    convnumFrom mem c base len (multiplier * base % 2 ^ 64)
      ((sum + (asciinum (mem (c + len)) * multiplier % 2 ^ 64).toNat) % 2 ^ 64)

def convnum (mem : Bytes) (c len base : ℕ) : ℕ := convnumFrom mem c base len 1 0

def constant (s : List UInt8) : Bytes := fun i => s.getD i 0

def sizeofHeader : ℕ := 110

def cFilesize (cp : ℕ) : ℕ := cp + 54

def cNamesize (cp : ℕ) : ℕ := cp + 94

def nextEntry (mem : Bytes) (cp : ℕ) : ℕ :=
  let blen := alignUp (sizeofHeader + convnum mem (cNamesize cp) 8 16) 4
  let tlen := alignUp (convnum mem (cFilesize cp) 8 16) 4
  (cp + blen + tlen) % 2 ^ 64

def tailer : List UInt8 := [84, 65, 73, 76, 69, 82, 33, 33, 33]

def slash : UInt8 := 47

/-- What is read: the header at `cp`, or a byte for the name of the entry at `cp`. -/
inductive Access where
  | header (cp : ℕ)
  | name (cp a : ℕ)

inductive Look where
  | null
  | found
  | next

/-- One round of the loop of `__find_file`. -/
def look (mem : Bytes) (fname : List UInt8) (fnameLen cp : ℕ) : Option (Look × List Access) :=
  let namelen := convnum mem (cNamesize cp) 8 16
  if namelen = 0 then some (.null, [.header cp])
  else if namelen < fnameLen then some (.next, [.header cp])
  else do
    let name := cp + sizeofHeader
    let tail ← strcmp mem (constant tailer) (tailer.length + 1) name 0
    if tail.ret = 0 then some (.null, .header cp :: tail.first.map (.name cp))
    else
      let name := if fname.head? = some slash then name
        else (name + sub64 namelen (fnameLen + 1)) % 2 ^ 64
      let diff ← strncmp mem (constant fname) (fname.length + 1) name 0 fnameLen
      some (if diff.ret = 0 then .found else .next,
        .header cp :: (tail.first ++ diff.first).map (.name cp))

/-- `__find_file` with a bound on its rounds. -/
def findFile (mem : Bytes) (fname : List UInt8) (fnameLen : ℕ) :
    ℕ → ℕ → Option (Option ℕ × List Access)
  | 0, _ => none
  | fuel + 1, cp =>
    if cp = 0 then some (none, [])
    else
      match look mem fname fnameLen cp with
      | none => none
      | some (.null, log) => some (none, log)
      | some (.found, log) => some (some cp, log)
      | some (.next, log) =>
        (findFile mem fname fnameLen fuel (nextEntry mem cp)).map fun r => (r.1, log ++ r.2)

structure Entry where
  addr : ℕ
  name : List UInt8
  size : ℕ

def Hex (mem : Bytes) (a v : ℕ) : Prop :=
  v < 16 ^ 8 ∧ ∀ i < 8, asciinum (mem (a + i)) = (v / 16 ^ (7 - i) % 16 : ℕ)

structure Header (mem : Bytes) (e : Entry) : Prop where
  magic : ∀ i (h : i < 6), mem (e.addr + i) = [48, 55, 48, 55, 48, 49].get ⟨i, h⟩
  digits : ∀ i < 104, asciinum (mem (e.addr + 6 + i)) ≠ -1
  filesize : Hex mem (cFilesize e.addr) e.size
  namesize : Hex mem (cNamesize e.addr) (e.name.length + 1)
  name : CStr mem (e.addr + sizeofHeader) e.name

def pad (n : ℕ) : ℕ := (n + 3) / 4 * 4

def Entry.stop (e : Entry) : ℕ :=
  e.addr + pad (sizeofHeader + (e.name.length + 1)) + pad e.size

def trailer : List UInt8 := [84, 82, 65, 73, 76, 69, 82, 33, 33, 33]

inductive Archive (mem : Bytes) : ℕ → List Entry → Entry → Prop
  | trailer {t : Entry} : Header mem t → t.name = trailer → t.stop < 2 ^ 64 →
      Archive mem t.addr [] t
  | entry {e : Entry} {es : List Entry} {t : Entry} : Header mem e → e.name ≠ Initrd.trailer →
      Archive mem e.stop es t → Archive mem e.addr (e :: es) t

def firstMatch (fname : List UInt8) (es : List Entry) : Option ℕ :=
  (es.find? fun e => fname.isSuffixOf e.name).map Entry.addr

/-- The search ends with the right answer, looks at no header past the trailer and at no
byte before a name. -/
def Correct (mem : Bytes) (fname : List UInt8) (c : ℕ) (es : List Entry) (t : Entry) : Prop :=
  ∃ fuel log, findFile mem fname fname.length fuel c = some (firstMatch fname es, log) ∧
    (∀ cp, .header cp ∈ log → cp ≤ t.addr) ∧
    ∀ cp a, .name cp a ∈ log → cp + sizeofHeader ≤ a

/-- A name that `strcmp` takes for the one the loop stops at: one of the two goes on from
the other. -/
def Stops (fname name : List UInt8) : Prop :=
  fname.length ≤ name.length + 1 ∧ name ≠ [] ∧ (name <+: tailer ∨ tailer <+: name)

def Passes (fname name : List UInt8) : Prop :=
  ¬fname <:+ name ∧ ¬Stops fname name ∧ name.length + 1 ≠ fname.length

/-- Before the trailer is an entry that ends the search: the first match, or an entry taken
for the last one where nothing matches. -/
def EndsEarly (fname : List UInt8) (es : List Entry) : Prop :=
  ∃ es₁ e es₂, es = es₁ ++ e :: es₂ ∧ (∀ x ∈ es₁, Passes fname x.name) ∧
    ((fname <:+ e.name ∧ ¬Stops fname e.name) ∨
      (Stops fname e.name ∧ ∀ x ∈ es, ¬fname <:+ x.name))

section

variable {mem : Bytes} {fname : List UInt8} {e t : Entry} {es : List Entry} {a c : ℕ}

lemma convnumFrom_of_hex {v len : ℕ} (h : Hex mem a v) (hlen : len ≤ 8) :
    convnumFrom mem a 16 len (16 ^ (8 - len)) (v % 16 ^ (8 - len)) = v := by
  induction len with
  | zero => exact Nat.mod_eq_of_lt h.1
  | succ len ih =>
    obtain ⟨k, hk⟩ : ∃ k, 7 - len = k := ⟨_, rfl⟩
    have hsucc : 8 - len = k + 1 := by omega
    have hpow : 16 ^ k ≤ 16 ^ 7 := Nat.pow_le_pow_right (by norm_num) (by omega)
    have hdigit : v / 16 ^ k % 16 ≤ 15 := by omega
    have hprod : v / 16 ^ k % 16 * 16 ^ k ≤ 15 * 16 ^ 7 := Nat.mul_le_mul hdigit hpow
    have hlow : v % 16 ^ k < 16 ^ k := Nat.mod_lt v (by positivity)
    have hsum : v % 16 ^ k + v / 16 ^ k % 16 * 16 ^ k = v % 16 ^ (k + 1) := by
      rw [Nat.mod_pow_succ, Nat.mul_comm]
    rw [convnumFrom, h.2 len (by omega), hk, show 8 - (len + 1) = k by omega, ← Nat.cast_mul]
    have hterm : ((↑(v / 16 ^ k % 16 * 16 ^ k) : ℤ) % 2 ^ 64).toNat = v / 16 ^ k % 16 * 16 ^ k := by
      omega
    rw [hterm, hsum, ← pow_succ, Nat.mod_eq_of_lt (by rw [pow_succ]; omega),
      Nat.mod_eq_of_lt (by rw [← hsum]; omega), ← hsucc]
    exact ih (by omega)

lemma convnum_of_hex {v : ℕ} (h : Hex mem a v) : convnum mem a 8 16 = v := by
  have := convnumFrom_of_hex h le_rfl
  rwa [Nat.sub_self, pow_zero, Nat.mod_one] at this

lemma cstr_drop {s : List UInt8} (h : CStr mem a s) {k : ℕ} (hk : k ≤ s.length) :
    CStr mem (a + k) (s.drop k) := by
  induction k generalizing a s with
  | zero => exact h
  | succ k ih =>
    cases s with
    | nil => simp at hk
    | cons d s =>
      obtain ⟨-, -, hs⟩ := h
      have := ih hs (by simpa using hk)
      rwa [Nat.add_assoc, Nat.add_comm 1 k] at this

lemma cstr_constant_from {s l : List UInt8} (hzero : 0 ∉ l) : CStr (constant (s ++ l)) s.length l := by
  induction l generalizing s with
  | nil =>
    show constant (s ++ []) s.length = 0
    simp [constant]
  | cons c l ih =>
    refine ⟨fun hc => hzero (hc ▸ List.mem_cons_self), by simp [constant], ?_⟩
    have := @ih (s ++ [c]) fun hin => hzero (List.mem_cons_of_mem _ hin)
    rwa [List.append_assoc, List.singleton_append, List.length_append, List.length_singleton] at this

lemma cstr_constant {l : List UInt8} (hzero : 0 ∉ l) : CStr (constant l) 0 l :=
  @cstr_constant_from [] l hzero

lemma strcmp_constant {s l : List UInt8} (h : CStr mem a s) (hl : l ≠ []) (hzero : 0 ∉ l) :
    ∃ r, strcmp mem (constant l) (l.length + 1) a 0 = some r ∧
      (r.ret = 0 ↔ s ≠ [] ∧ (s <+: l ∨ l <+: s)) ∧ ∀ x ∈ r.first, a ≤ x := by
  have hc := cstr_constant hzero
  cases l with
  | nil => exact absurd rfl hl
  | cons d l =>
    cases s with
    | nil =>
      obtain ⟨hr, hne⟩ := compareLoop_empty h hc (.inl ⟨rfl, hl⟩)
      have hret := (Differ.head hne).ne_zero
      exact ⟨_, hr, by simpa using hret, by simp⟩
    | cons c s =>
      obtain ⟨r, hr, hin, hanswer⟩ :=
        @strcmp_answer mem (constant (d :: l)) s l a 0 ((d :: l).length + 1) c d h hc (by simp)
      refine ⟨r, hr, ?_, fun x hx => (hin.1 x hx).1⟩
      rw [hanswer.eq_zero_iff]
      simp

lemma strncmp_constant {s l : List UInt8} (h : CStr mem a s) (hl : l ≠ []) (hzero : 0 ∉ l)
    (hlen : s.length = l.length) (hlt : l.length < 2 ^ 64) :
    ∃ r, strncmp mem (constant l) (l.length + 1) a 0 l.length = some r ∧ (r.ret = 0 ↔ s = l) ∧
      ∀ x ∈ r.first, a ≤ x := by
  have hc := cstr_constant hzero
  cases l with
  | nil => exact absurd rfl hl
  | cons d l =>
    cases s with
    | nil => simp at hlen
    | cons c s =>
      obtain ⟨r, hr, hin, hanswer⟩ := @strncmp_answer mem (constant (d :: l)) s l a 0 (d :: l).length
        ((d :: l).length + 1) c d h hc (by simp) hlt (by simp)
      refine ⟨r, hr, ?_, fun x hx => (hin.1 x hx).1⟩
      rw [hanswer.eq_zero_iff, List.take_of_length_le hlen.le, List.take_of_length_le le_rfl]
      constructor
      · rintro (hp | hp)
        · exact hp.eq_of_length hlen
        · exact (hp.eq_of_length hlen.symm).symm
      · rintro heq
        exact .inl (heq ▸ List.prefix_rfl)

lemma strncmp_reads {l : List UInt8} (hl : l ≠ []) (hzero : 0 ∉ l) (num : ℕ) :
    ∃ r, strncmp mem (constant l) (l.length + 1) a 0 num = some r ∧ a ∈ r.first := by
  have hc := cstr_constant hzero
  cases l with
  | nil => exact absurd rfl hl
  | cons d l => exact compareLoop_ends hc (by simp)

lemma alignUp_four {n : ℕ} (h : n < 2 ^ 63) : alignUp n 4 = pad n := by
  rw [alignUp_eq (by norm_num) (by omega), pad, Nat.mul_comm]

lemma Header.nextEntry (h : Header mem e) (hstop : e.stop < 2 ^ 64) :
    nextEntry mem e.addr = e.stop := by
  have hn := h.namesize.1
  have hf := h.filesize.1
  rw [Initrd.nextEntry, convnum_of_hex h.namesize, convnum_of_hex h.filesize]
  rw [alignUp_four (by simp only [sizeofHeader]; omega), alignUp_four (by omega)]
  exact Nat.mod_eq_of_lt hstop

lemma addr_lt_stop (e : Entry) : e.addr + 112 ≤ e.stop := by
  simp only [Entry.stop, pad, sizeofHeader]
  omega

def Inside (e : Entry) (log : List Access) : Prop :=
  (∀ cp, .header cp ∈ log → cp = e.addr) ∧ ∀ cp a, .name cp a ∈ log → cp + sizeofHeader ≤ a

lemma inside_cons {l : List ℕ} (h : ∀ x ∈ l, e.addr + sizeofHeader ≤ x) :
    Inside e (.header e.addr :: l.map (.name e.addr)) := by
  constructor
  · intro cp hcp
    simpa using hcp
  · intro cp a ha
    simp only [List.mem_cons, reduceCtorEq, List.mem_map, Access.name.injEq, false_or] at ha
    obtain ⟨x, hx, rfl, rfl⟩ := ha
    exact h x hx

lemma tailer_ne_nil : tailer ≠ [] := by decide

lemma tailer_no_zero : 0 ∉ tailer := by decide

variable (h : Header mem e)

include h in
lemma look_null (hstops : Stops fname e.name) :
    ∃ log, look mem fname fname.length e.addr = some (.null, log) ∧ Inside e log := by
  obtain ⟨hlen, htail⟩ := hstops
  obtain ⟨r, hr, hzero, hreads⟩ := strcmp_constant h.name tailer_ne_nil tailer_no_zero
  unfold look
  rw [convnum_of_hex h.namesize]
  simp only [hr, Option.bind_eq_bind, Option.bind_some]
  rw [if_neg (by omega), if_neg (by omega), if_pos (hzero.2 htail)]
  exact ⟨_, rfl, inside_cons hreads⟩

include h in
lemma look_long (hslash : fname.head? ≠ some slash) (hnil : fname ≠ []) (hzero : 0 ∉ fname)
    (haddr : e.stop < 2 ^ 64) (hstops : ¬Stops fname e.name) (hlen : fname.length ≤ e.name.length) :
    ∃ log, look mem fname fname.length e.addr =
      some (if fname <:+ e.name then .found else .next, log) ∧ Inside e log := by
  have hstop := addr_lt_stop e
  have hn := h.namesize.1
  have hend : e.addr + sizeofHeader + e.name.length < e.stop := by
    simp only [Entry.stop, pad, sizeofHeader]
    omega
  have hoff : sub64 (e.name.length + 1) (fname.length + 1) = e.name.length - fname.length := by
    simp only [sub64]
    omega
  obtain ⟨r, hr, htail, hreads⟩ := strcmp_constant h.name tailer_ne_nil tailer_no_zero
  have hgo : ¬r.ret = 0 := fun h0 => hstops ⟨by omega, htail.1 h0⟩
  have hdrop := cstr_drop h.name (Nat.sub_le e.name.length fname.length)
  obtain ⟨r', hr', hcmp, hreads'⟩ := strncmp_constant hdrop hnil hzero (by simp; omega) (by omega)
  have hsuffix : e.name.drop (e.name.length - fname.length) = fname ↔ fname <:+ e.name := by
    rw [List.suffix_iff_eq_drop, eq_comm]
  unfold look
  rw [convnum_of_hex h.namesize]
  simp only [hr, Option.bind_eq_bind, Option.bind_some]
  rw [if_neg (by omega), if_neg (by omega), if_neg hgo, if_neg hslash, hoff,
    Nat.mod_eq_of_lt (by omega), hr', Option.bind_some]
  refine ⟨_, congrArg some (Prod.ext (if_congr (hcmp.trans hsuffix) rfl rfl) rfl), inside_cons ?_⟩
  intro x hx
  obtain hx | hx := List.mem_append.1 hx
  · exact hreads x hx
  · exact (Nat.le_add_right _ _).trans (hreads' x hx)

include h in
lemma look_short (hlen : e.name.length + 1 < fname.length) :
    ∃ log, look mem fname fname.length e.addr = some (.next, log) ∧ Inside e log := by
  unfold look
  rw [convnum_of_hex h.namesize]
  simp only
  rw [if_neg (by omega), if_pos hlen]
  exact ⟨_, rfl, @inside_cons e [] (by simp)⟩

include h in
lemma look_before (hslash : fname.head? ≠ some slash) (hnil : fname ≠ []) (hzero : 0 ∉ fname)
    (haddr : e.stop < 2 ^ 64) (hstops : ¬Stops fname e.name) (hlen : e.name.length + 1 = fname.length) :
    ∃ o log, look mem fname fname.length e.addr = some (o, log) ∧
      .name e.addr (e.addr + 109) ∈ log := by
  have hstop := addr_lt_stop e
  have hn := h.namesize.1
  have hoff : (e.addr + sizeofHeader + sub64 (e.name.length + 1) (fname.length + 1)) % 2 ^ 64 =
      e.addr + 109 := by
    simp only [sub64, sizeofHeader]
    omega
  obtain ⟨r, hr, htail, -⟩ := strcmp_constant h.name tailer_ne_nil tailer_no_zero
  have hgo : ¬r.ret = 0 := fun h0 => hstops ⟨by omega, htail.1 h0⟩
  obtain ⟨r', hr', hfirst⟩ := @strncmp_reads mem (e.addr + 109) fname hnil hzero fname.length
  unfold look
  rw [convnum_of_hex h.namesize]
  simp only [hr, Option.bind_eq_bind, Option.bind_some]
  rw [if_neg (by omega), if_neg (by omega), if_neg hgo, if_neg hslash, hoff, hr', Option.bind_some]
  refine ⟨_, _, rfl, List.mem_cons_of_mem _ (List.mem_map_of_mem (List.mem_append_right _ hfirst))⟩

include h in
lemma look_next (hslash : fname.head? ≠ some slash) (hnil : fname ≠ []) (hzero : 0 ∉ fname)
    (haddr : e.stop < 2 ^ 64) (hpass : Passes fname e.name) :
    ∃ log, look mem fname fname.length e.addr = some (.next, log) ∧ Inside e log := by
  obtain ⟨hmatch, hstops, hlen⟩ := hpass
  obtain hshort | hlong := Nat.lt_or_ge e.name.length fname.length
  · exact look_short h (by omega)
  · have := look_long h hslash hnil hzero haddr hstops hlong
    rwa [if_neg hmatch] at this

lemma Archive.bounds (h : Archive mem c es t) : c ≤ t.addr ∧ t.stop < 2 ^ 64 := by
  induction h with
  | trailer _ _ hstop => exact ⟨le_rfl, hstop⟩
  | @entry e _ _ _ _ _ ih =>
    have := addr_lt_stop e
    exact ⟨by omega, ih.2⟩

lemma stops_trailer : ¬Stops fname trailer := by
  rintro ⟨-, -, h | h⟩
  · exact absurd h (by decide)
  · exact absurd h (by decide)

lemma findFile_null {fuel cp : ℕ} {log : List Access} (hcp : cp ≠ 0)
    (h : look mem fname fname.length cp = some (.null, log)) :
    findFile mem fname fname.length (fuel + 1) cp = some (none, log) := by
  rw [findFile, if_neg hcp, h]

lemma findFile_found {fuel cp : ℕ} {log : List Access} (hcp : cp ≠ 0)
    (h : look mem fname fname.length cp = some (.found, log)) :
    findFile mem fname fname.length (fuel + 1) cp = some (some cp, log) := by
  rw [findFile, if_neg hcp, h]

lemma findFile_next {fuel cp : ℕ} {log : List Access} (hcp : cp ≠ 0)
    (h : look mem fname fname.length cp = some (.next, log)) :
    findFile mem fname fname.length (fuel + 1) cp =
      (findFile mem fname fname.length fuel (nextEntry mem cp)).map fun r => (r.1, log ++ r.2) := by
  rw [findFile, if_neg hcp, h]

lemma header_mem_look {n cp : ℕ} {o : Look} {log : List Access} (h : look mem fname n cp = some (o, log)) :
    .header cp ∈ log := by
  unfold look at h
  simp only at h
  split at h
  · cases h
    exact List.mem_cons_self
  split at h
  · cases h
    exact List.mem_cons_self
  obtain ⟨tail, -, h⟩ := Option.bind_eq_some_iff.1 h
  split at h
  · cases h
    exact List.mem_cons_self
  obtain ⟨diff, -, h⟩ := Option.bind_eq_some_iff.1 h
  cases h
  exact List.mem_cons_self

lemma look_subset_findFile {fuel cp : ℕ} {r : Option ℕ} {log : List Access} (hcp : cp ≠ 0)
    (h : findFile mem fname fname.length fuel cp = some (r, log)) :
    ∃ o l, look mem fname fname.length cp = some (o, l) ∧ l ⊆ log := by
  cases fuel with
  | zero => cases h
  | succ fuel =>
    cases hlook : look mem fname fname.length cp with
    | none =>
      rw [findFile, if_neg hcp, hlook] at h
      cases h
    | some ol =>
      obtain ⟨o, l⟩ := ol
      refine ⟨o, l, rfl, ?_⟩
      cases o with
      | null =>
        rw [findFile_null hcp hlook] at h
        cases h
        exact List.Subset.refl _
      | found =>
        rw [findFile_found hcp hlook] at h
        cases h
        exact List.Subset.refl _
      | next =>
        rw [findFile_next hcp hlook] at h
        obtain ⟨r', -, heq⟩ := Option.map_eq_some_iff.1 h
        cases heq
        exact List.subset_append_left _ _

lemma header_mem_findFile {fuel cp : ℕ} {r : Option ℕ} {log : List Access} (hcp : cp ≠ 0)
    (h : findFile mem fname fname.length fuel cp = some (r, log)) : .header cp ∈ log := by
  obtain ⟨o, l, hlook, hsub⟩ := look_subset_findFile hcp h
  exact hsub (header_mem_look hlook)

lemma Inside.access {log : List Access} (h : Inside e log) (hle : e.addr ≤ t.addr) :
    (∀ cp, .header cp ∈ log → cp ≤ t.addr) ∧ ∀ cp a, .name cp a ∈ log → cp + sizeofHeader ≤ a :=
  ⟨fun cp hcp => (h.1 cp hcp).le.trans hle, h.2⟩

lemma firstMatch_cons (hmatch : ¬fname <:+ e.name) :
    firstMatch fname (e :: es) = firstMatch fname es := by
  rw [firstMatch, List.find?_cons_of_neg (by simpa using hmatch), ← firstMatch]

lemma firstMatch_head (hmatch : fname <:+ e.name) : firstMatch fname (e :: es) = some e.addr := by
  rw [firstMatch, List.find?_cons_of_pos (by simpa using hmatch), Option.map_some]

lemma firstMatch_eq_none : firstMatch fname es = none ↔ ∀ x ∈ es, ¬fname <:+ x.name := by
  simp [firstMatch]

lemma EndsEarly.cons (h : EndsEarly fname es) (hpass : Passes fname e.name) :
    EndsEarly fname (e :: es) := by
  obtain ⟨es₁, x, es₂, rfl, hes₁, hx⟩ := h
  refine ⟨e :: es₁, x, es₂, rfl, ?_, hx.imp_right ?_⟩
  · intro y hy
    obtain rfl | hy := List.mem_cons.1 hy
    · exact hpass
    · exact hes₁ y hy
  · rintro ⟨hstops, hnone⟩
    refine ⟨hstops, fun y hy => ?_⟩
    obtain rfl | hy := List.mem_cons.1 hy
    · exact hpass.1
    · exact hnone y hy

lemma not_correct_of_before (hslash : fname.head? ≠ some slash) (hnil : fname ≠ []) (hzero : 0 ∉ fname)
    (hh : Header mem e) (hstop : e.stop < 2 ^ 64) (hc : e.addr ≠ 0)
    (hstops : ¬Stops fname e.name) (hlen : e.name.length + 1 = fname.length) :
    ¬Correct mem fname e.addr es t := by
  rintro ⟨fuel, log, hfind, -, hbyte⟩
  obtain ⟨o, l, hlook, hsub⟩ := look_subset_findFile hc hfind
  obtain ⟨o', l', hlook', hmem⟩ := look_before hh hslash hnil hzero hstop hstops hlen
  cases hlook.symm.trans hlook'
  have := hbyte e.addr (e.addr + 109) (hsub hmem)
  simp [sizeofHeader] at this

section

variable (hslash : fname.head? ≠ some slash) (hnil : fname ≠ []) (hzero : 0 ∉ fname)

include hslash hnil hzero

lemma correct_of_endsEarly (ha : Archive mem c es t) (hc : c ≠ 0) (h : EndsEarly fname es) :
    Correct mem fname c es t := by
  induction ha with
  | trailer =>
    obtain ⟨es₁, e, es₂, hes, -⟩ := h
    simp at hes
  | @entry e es t hh hname ha ih =>
    obtain ⟨hle, ht⟩ := ha.bounds
    have hlt := addr_lt_stop e
    have htlt := addr_lt_stop t
    have hstop : e.stop < 2 ^ 64 := by omega
    obtain ⟨es₁, x, es₂, hes, hes₁, hx⟩ := h
    cases es₁ with
    | nil =>
      obtain ⟨rfl, rfl⟩ := List.cons.inj hes
      obtain ⟨hmatch, hstops⟩ | ⟨hstops, hnone⟩ := hx
      · obtain ⟨log, hlook, hin⟩ := look_long hh hslash hnil hzero hstop hstops hmatch.length_le
        rw [if_pos hmatch] at hlook
        refine ⟨1, log, ?_, hin.access (by omega)⟩
        rw [findFile_found hc hlook, firstMatch_head hmatch]
      · obtain ⟨log, hlook, hin⟩ := look_null hh hstops
        refine ⟨1, log, ?_, hin.access (by omega)⟩
        rw [findFile_null hc hlook, firstMatch_eq_none.2 hnone]
    | cons y es₁ =>
      obtain ⟨rfl, rfl⟩ := List.cons.inj hes
      have hpass := hes₁ e List.mem_cons_self
      obtain ⟨log, hlook, hin⟩ := look_next hh hslash hnil hzero hstop hpass
      obtain ⟨fuel, log', hfind, hheader, hbyte⟩ := ih (by omega) ⟨es₁, x, es₂, rfl,
        fun z hz => hes₁ z (List.mem_cons_of_mem _ hz),
        hx.imp_right fun hx => ⟨hx.1, fun z hz => hx.2 z (List.mem_cons_of_mem _ hz)⟩⟩
      obtain ⟨hheader', hbyte'⟩ := hin.access (show e.addr ≤ t.addr by omega)
      refine ⟨fuel + 1, log ++ log', ?_, ?_, ?_⟩
      · rw [findFile_next hc hlook, hh.nextEntry hstop, hfind, firstMatch_cons hpass.1,
          Option.map_some]
      · intro cp hcp
        exact (List.mem_append.1 hcp).elim (hheader' cp) (hheader cp)
      · intro cp a hcp
        exact (List.mem_append.1 hcp).elim (hbyte' cp a) (hbyte cp a)

lemma Correct.next (hh : Header mem e) (hstop : e.stop < 2 ^ 64) (hc : e.addr ≠ 0)
    (hpass : Passes fname e.name) (h : Correct mem fname e.addr (e :: es) t) :
    Correct mem fname e.stop es t ∧ e.stop ≤ t.addr := by
  have hlt := addr_lt_stop e
  obtain ⟨log, hlook, -⟩ := look_next hh hslash hnil hzero hstop hpass
  obtain ⟨fuel, log', hfind, hheader, hbyte⟩ := h
  cases fuel with
  | zero => cases hfind
  | succ fuel =>
    rw [findFile_next hc hlook, hh.nextEntry hstop, firstMatch_cons hpass.1] at hfind
    obtain ⟨⟨r, log₁⟩, hrest, heq⟩ := Option.map_eq_some_iff.1 hfind
    simp only [Prod.mk.injEq] at heq
    obtain ⟨rfl, rfl⟩ := heq
    refine ⟨⟨fuel, log₁, hrest, ?_, ?_⟩, ?_⟩
    · exact fun cp hcp => hheader cp (List.mem_append_right _ hcp)
    · exact fun cp a ha => hbyte cp a (List.mem_append_right _ ha)
    · exact hheader _ (List.mem_append_right _ (header_mem_findFile (by omega) hrest))

lemma endsEarly_of_correct (ha : Archive mem c es t) (hc : c ≠ 0)
    (h : Correct mem fname c es t) : EndsEarly fname es := by
  induction ha with
  | @trailer t hh hname hstop =>
    exfalso
    have hstops : ¬Stops fname t.name := hname ▸ stops_trailer
    have hlt := addr_lt_stop t
    by_cases hlen : t.name.length + 1 = fname.length
    · exact not_correct_of_before hslash hnil hzero hh hstop hc hstops hlen h
    by_cases hmatch : fname <:+ t.name
    · obtain ⟨log, hlook, -⟩ := look_long hh hslash hnil hzero hstop hstops hmatch.length_le
      rw [if_pos hmatch] at hlook
      obtain ⟨fuel, log', hfind, -⟩ := h
      cases fuel with
      | zero => cases hfind
      | succ fuel =>
        rw [findFile_found hc hlook] at hfind
        simp [firstMatch] at hfind
    · -- the search goes on behind the trailer
      obtain ⟨log, hlook, -⟩ := look_next hh hslash hnil hzero hstop ⟨hmatch, hstops, hlen⟩
      obtain ⟨fuel, log', hfind, hheader, -⟩ := h
      cases fuel with
      | zero => cases hfind
      | succ fuel =>
        rw [findFile_next hc hlook, hh.nextEntry hstop] at hfind
        obtain ⟨⟨r, log₁⟩, hrest, heq⟩ := Option.map_eq_some_iff.1 hfind
        simp only [Prod.mk.injEq] at heq
        obtain ⟨-, rfl⟩ := heq
        have := hheader t.stop
          (List.mem_append_right _ (header_mem_findFile (by omega) hrest))
        omega
  | @entry e es t hh hname ha ih =>
    obtain ⟨hle, ht⟩ := ha.bounds
    have hlt := addr_lt_stop e
    have htlt := addr_lt_stop t
    have hstop : e.stop < 2 ^ 64 := by omega
    by_cases hstops : Stops fname e.name
    · obtain ⟨log, hlook, -⟩ := look_null hh hstops
      obtain ⟨fuel, log', hfind, -⟩ := h
      refine ⟨[], e, es, rfl, by simp, .inr ⟨hstops, firstMatch_eq_none.1 ?_⟩⟩
      cases fuel with
      | zero => cases hfind
      | succ fuel =>
        rw [findFile_null hc hlook] at hfind
        simp only [Option.some.injEq, Prod.mk.injEq] at hfind
        exact hfind.1.symm
    by_cases hlen : e.name.length + 1 = fname.length
    · exact absurd h (not_correct_of_before hslash hnil hzero hh hstop hc hstops hlen)
    by_cases hmatch : fname <:+ e.name
    · exact ⟨[], e, es, rfl, by simp, .inl ⟨hmatch, hstops⟩⟩
    · have hpass : Passes fname e.name := ⟨hmatch, hstops, hlen⟩
      have hnext := (h.next hslash hnil hzero hh hstop hc hpass).1
      exact (ih (by omega) hnext).cons hpass

end

end

theorem findFile_correct_iff {mem : Bytes} {c : ℕ} {es : List Entry} {t : Entry}
    {fname : List UInt8} (ha : Archive mem c es t) (hc : c ≠ 0) (hnil : fname ≠ [])
    (hzero : 0 ∉ fname) (hslash : fname.head? ≠ some slash) :
    Correct mem fname c es t ↔ EndsEarly fname es :=
  ⟨endsEarly_of_correct hslash hnil hzero ha hc, correct_of_endsEarly hslash hnil hzero ha hc⟩

def newc (digit : UInt8) (name : List UInt8) : List UInt8 :=
  [48, 55, 48, 55, 48, 49] ++ List.replicate 95 48 ++ [digit] ++ List.replicate 8 48 ++ name ++
    List.replicate ((4 - (sizeofHeader + name.length) % 4) % 4) 0

def initN : List UInt8 := [105, 110, 105, 116]

def dataN : List UInt8 := [100, 97, 116, 97]

def single (name : List UInt8) : Bytes := fun a =>
  (newc 53 (name ++ [0]) ++ newc 66 (trailer ++ [0])).getD (a - 4096) 0

def single_file (name : List UInt8) : Entry := ⟨4096, name, 0⟩

def single_trailer : Entry := ⟨4212, trailer, 0⟩

lemma single_archive {name : List UInt8} (h : name = initN ∨ name = dataN) :
    Archive (single name) 4096 [single_file name] single_trailer := by
  have hfile : Header (single name) (single_file name) := by
    obtain rfl | rfl := h
    · exact ⟨by decide +kernel, by decide +kernel, ⟨by decide, by decide +kernel⟩,
        ⟨by decide, by decide +kernel⟩, by simp only [single_file, initN, CStr]; decide +kernel⟩
    · exact ⟨by decide +kernel, by decide +kernel, ⟨by decide, by decide +kernel⟩,
        ⟨by decide, by decide +kernel⟩, by simp only [single_file, dataN, CStr]; decide +kernel⟩
  have htrailer : Header (single name) single_trailer := by
    obtain rfl | rfl := h
    · exact ⟨by decide +kernel, by decide +kernel, ⟨by decide, by decide +kernel⟩,
        ⟨by decide, by decide +kernel⟩, by simp only [single_trailer, trailer, CStr]; decide +kernel⟩
    · exact ⟨by decide +kernel, by decide +kernel, ⟨by decide, by decide +kernel⟩,
        ⟨by decide, by decide +kernel⟩, by simp only [single_trailer, trailer, CStr]; decide +kernel⟩
  obtain rfl | rfl := h
  · exact .entry hfile (by decide) (.trailer htrailer rfl (by decide))
  · exact .entry hfile (by decide) (.trailer htrailer rfl (by decide))

theorem findFile_correct_iff_init : Correct (single initN) initN 4096 [single_file initN] single_trailer :=
  (findFile_correct_iff (single_archive (.inl rfl)) (by decide) (by decide) (by decide) (by decide)).2
    ⟨[], single_file initN, [], rfl, by simp, .inl ⟨by decide, by
      rintro ⟨-, -, h⟩
      revert h
      decide⟩⟩

theorem missing_file_passes_trailer : Archive (single dataN) 4096 [single_file dataN] single_trailer ∧
    ¬Correct (single dataN) initN 4096 [single_file dataN] single_trailer := by
  have harchive := single_archive (.inr rfl)
  refine ⟨harchive, fun h => ?_⟩
  obtain ⟨es₁, e, es₂, hes, -, he⟩ := endsEarly_of_correct (by decide) (by decide) (by decide) harchive (by decide) h
  have hdata : e ∈ [single_file dataN] := by
    rw [hes]
    simp
  obtain rfl := List.mem_singleton.1 hdata
  obtain ⟨hmatch, -⟩ | ⟨⟨-, -, hstops⟩, -⟩ := he
  · exact absurd hmatch (by decide)
  · exact absurd hstops (by decide)

end Kmi.Initrd
