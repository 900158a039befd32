import ByteRoutines.Proofs.Register.Precondition
import ByteRoutines.Proofs.Routine.Compare
import ByteRoutines.Proofs.Routine.Region
import ByteRoutines.Proofs.Routine.StringCopy

/-!
# Routines keep to the preconditions of instructions

No run of a routine misuses an instruction, whatever its arguments, the
contents of memory and the thresholds: every aligned access has an aligned
address, and every access to a part of a register a length that it serves
(`routines_keep_preconditions`). What callers have to promise for the right
result is not needed for that, so nothing is assumed of strings or of regions
that overlap. The only fault of a routine is that a scan runs off the end of
the address space.

Routines without a scan end in any memory, and what is known of their ends is
enough. A scan need not end, so each loop of one carries what its instructions
need: the string is aligned at the offset that the loop has come to, and of a
copy, there is something left to be stored.
-/

namespace ByteRoutines

open Exec Kernel RegisterKind

variable {k : RegisterKind} {faults : Fault → Prop} {p s dst src : Pointer} {n off : Nat}

theorem mayLoadPage_anything (p : Pointer) : MayLoadPage (fun _ => True) p :=
  fun _ _ _ _ => trivial

/-! ### Instructions -/

theorem endsOr_loadByte (p : Pointer) : EndsOr faults (loadByte p) fun _ => True :=
  endsOr_of_ends fun _ => runs_loadByte trivial

theorem endsOr_storeByte (p : Pointer) (byte : UInt8) :
    EndsOr faults (storeByte p byte) fun _ => True :=
  endsOr_of_ends fun _ => ends_storeByte trivial

theorem endsOr_load (k : RegisterKind) (p : Pointer) : EndsOr faults (k.load p) fun _ => True :=
  endsOr_of_ends fun _ => runs_load (aligned_of_not_needsAlignment rfl) trivial

theorem endsOr_store (p : Pointer) (v : Register k) :
    EndsOr faults (k.store p v) fun _ => True :=
  endsOr_of_ends fun _ => runs_store (aligned_of_not_needsAlignment rfl) trivial

theorem endsOr_loadAligned (halign : p.address % k.width = 0) :
    EndsOr faults (k.loadAligned p) fun _ => True :=
  endsOr_of_ends fun _ => runs_load (fun _ => halign) trivial

theorem endsOr_storePrefix {v : Register k} (hpos : 0 < n) (hn : n ≤ k.width) :
    EndsOr faults (k.storePrefix p v n) fun _ => True :=
  endsOr_of_ends fun _ => ends_storePrefix hpos hn (fun _ _ => rfl) fun _ _ _ _ => trivial

/-- The head of a region reaches the next boundary, and has the length of a register at most. -/
theorem endsOr_loadHead (k : RegisterKind) (p : Pointer) :
    EndsOr faults (k.loadHead p) fun head =>
      k.toBoundary p.address ≤ head.2 ∧ head.2 ≤ k.width := by
  apply endsOr_post_of_ends fun _ => answers_loadHead (mayLoadPage_anything p)
  rintro m head m' ⟨_, hlow, hhigh, _⟩
  exact ⟨hlow, hhigh⟩

theorem lt_of_firstSet?_low {m : Mask} {i : Nat} (h : (m &&& Mask.low n).firstSet? = some i) :
    i < n := by
  have hfirst := isFirst_firstSet? (m &&& Mask.low n)
  rw [h] at hfirst
  obtain ⟨_, hbit, _⟩ := hfirst
  exact (getLsbD_and_low.mp hbit).2

/-! ### Routines without a scan -/

theorem endsOr_memcpy (k : RegisterKind) (policy : LoopPolicy) (dst src : Pointer) (n : Nat) :
    EndsOr faults (memcpy k policy dst src n) fun _ => True :=
  endsOr_of_ends fun _ => ends_memcpy_anywhere (mayCopy_anything True dst src n)

theorem endsOr_mempcpy (k : RegisterKind) (policy : LoopPolicy) (dst src : Pointer) (n : Nat) :
    EndsOr faults (mempcpy k policy dst src n) fun _ => True :=
  endsOr_of_ends fun _ => ends_mempcpy_anywhere (mayCopy_anything True dst src n)

theorem endsOr_memmove (k : RegisterKind) (policy : LoopPolicy) (dst src : Pointer) (n : Nat) :
    EndsOr faults (memmove k policy dst src n) fun _ => True :=
  endsOr_of_ends fun _ =>
    ends_memmove_anywhere (fun _ _ => trivial) (mayCopy_anything True dst src n)

theorem endsOr_memset (k : RegisterKind) (policy : LoopPolicy) (dst : Pointer) (value : UInt8)
    (n : Nat) : EndsOr faults (memset k policy dst value n) fun _ => True :=
  endsOr_of_ends fun _ => ends_memset (mayFill_anything dst n)

theorem endsOr_memcmp (k : RegisterKind) (a b : Pointer) (n : Nat) :
    EndsOr faults (memcmp k a b n) fun _ => True :=
  endsOr_of_ends fun _ =>
    answers_memcmp (mayLoadRegion_anything k a n) (mayLoadRegion_anything k b n)

theorem endsOr_memchr (k : RegisterKind) (p : Pointer) (byte : UInt8) (n : Nat) :
    EndsOr faults (memchr k p byte n) fun _ => True :=
  endsOr_of_ends fun _ => answers_memchr (mayLoadRegion_anything k p n)

theorem endsOr_decisivePosition (k : RegisterKind) (a b : Pointer) (n : Nat) :
    EndsOr faults (decisivePosition k a b n) fun _ => True :=
  endsOr_of_ends fun m => answers_decisivePosition (mayCompare_anything m a b n)

theorem endsOr_strncmp (k : RegisterKind) (a b : Pointer) (n : Nat) :
    EndsOr faults (strncmp k a b n) fun _ => True :=
  endsOr_of_ends fun m => answers_strncmp (mayCompare_anything m a b n)

/-! ### Scans -/

theorem endsOr_stops {stop : StopSet} {count : Nat} (halign : (s.address + off) % k.width = 0) :
    EndsOr faults (masksFrom k (stopsAt k stop s) off count) fun _ => True := by
  apply endsOr_of_ends
  intro m
  apply answers_masksFrom (p := stop.EndsAt m s)
  intro j _
  refine answers_stopsAt ?_ (mayLoadPage_anything _)
  rw [← Nat.add_assoc, Nat.add_mul_mod_self_right]
  exact halign

/-- The loop of a scan, at an aligned offset. -/
theorem endsOr_scanFrom {stop : StopSet} (halign : (s.address + off) % k.width = 0) :
    EndsOr (· = .addressSpaceEnd) (scanFrom k stop s off) fun _ => True := by
  induction hleft : addressSpace - (s.address + off) using Nat.strongRecOn generalizing off with
  | ind left ih =>
    rw [scanFrom]
    split
    · rename_i hin
      apply (endsOr_stops halign).bind
      intro masks _
      split
      · exact endsOr_pure trivial
      · have hpos := Nat.mul_pos (groupSize_pos k (s.address + off)) k.width_pos
        refine ih _ (by omega) ?_ rfl
        rw [← Nat.add_assoc, Nat.add_mul_mod_self_right]
        exact halign
    · exact endsOr_throw rfl

theorem endsOr_stopPosition (k : RegisterKind) (stop : StopSet) (s : Pointer) :
    EndsOr (· = .addressSpaceEnd) (stopPosition k stop s) fun _ => True := by
  unfold stopPosition
  apply (endsOr_loadHead k s).bind
  rintro ⟨v, valid⟩ _
  dsimp only
  split
  · exact endsOr_pure trivial
  · exact endsOr_scanFrom (k.add_toBoundary_mod s.address)

theorem endsOr_strlen (k : RegisterKind) (s : Pointer) :
    EndsOr (· = .addressSpaceEnd) (strlen k s) fun _ => True :=
  endsOr_stopPosition k .terminator s

theorem endsOr_strchr (k : RegisterKind) (s : Pointer) (byte : UInt8) :
    EndsOr (· = .addressSpaceEnd) (strchr k s byte) fun _ => True := by
  unfold strchr
  apply (endsOr_stopPosition k (.terminatorOr byte) s).bind
  intro i _
  exact (endsOr_loadByte (s + i)).bind_pure

/-! ### Copies of strings -/

/-- The loop of a copy, at an aligned offset of the source below the bound: so there is at least a
byte of each register to be stored. -/
theorem endsOr_copyStringFrom (halign : (src.address + off) % k.width = 0) (hoff : off < n) :
    EndsOr faults (copyStringFrom k dst src n off) fun _ => True := by
  induction hleft : n - off using Nat.strongRecOn generalizing off with
  | ind left ih =>
    have hwidth := k.width_pos
    rw [copyStringFrom]
    apply (endsOr_loadAligned halign).bind
    intro v _
    dsimp only
    split
    · rename_i i hset
      have hi := lt_of_firstSet?_low hset
      exact (endsOr_storePrefix (Nat.succ_pos i) (by omega)).bind_pure
    split
    · rename_i hlast
      exact (endsOr_storePrefix (by omega) hlast).bind_pure
    · rename_i hmore
      apply (endsOr_store (dst + off) v).bind
      intro _ _
      refine ih _ (by omega) ?_ (by omega) rfl
      rw [← Nat.add_assoc]
      exact k.add_width_mod halign

theorem endsOr_copyString (k : RegisterKind) (dst src : Pointer) (n : Nat) :
    EndsOr faults (copyString k dst src n) fun _ => True := by
  unfold copyString
  split
  · exact endsOr_pure trivial
  · rename_i hn
    apply (endsOr_loadHead k src).bind
    rintro ⟨v, valid⟩ ⟨hlow, hhigh⟩
    have hboundary := k.toBoundary_pos src.address
    dsimp only at hlow hhigh ⊢
    split
    · rename_i i hset
      have hi := lt_of_firstSet?_low hset
      exact (endsOr_storePrefix (Nat.succ_pos i) (by omega)).bind_pure
    · apply (endsOr_storePrefix (by omega) (by omega)).bind
      intro _ _
      split
      · exact endsOr_pure trivial
      · exact endsOr_copyStringFrom (k.add_toBoundary_mod src.address) (by omega)

theorem endsOr_strcpy (k : RegisterKind) (dst src : Pointer) :
    EndsOr faults (strcpy k dst src) fun _ => True := by
  unfold strcpy
  exact (endsOr_copyString k dst src maxLength).bind_pure

theorem endsOr_strncpy (k : RegisterKind) (policy : LoopPolicy) (dst src : Pointer) (n : Nat) :
    EndsOr faults (strncpy k policy dst src n) fun _ => True := by
  unfold strncpy
  apply (endsOr_copyString k dst src n).bind
  intro copied _
  dsimp only
  split
  · exact (endsOr_memset k policy (dst + copied) 0 (n - copied)).bind_pure
  · exact endsOr_pure trivial

theorem endsOr_strcat (k : RegisterKind) (dst src : Pointer) :
    EndsOr (· = .addressSpaceEnd) (strcat k dst src) fun _ => True := by
  unfold strcat
  apply (endsOr_strlen k dst).bind
  intro length _
  exact (endsOr_copyString k (dst + length) src maxLength).bind_pure

theorem endsOr_strncat (k : RegisterKind) (dst src : Pointer) (n : Nat) :
    EndsOr (· = .addressSpaceEnd) (strncat k dst src n) fun _ => True := by
  unfold strncat
  apply (endsOr_strlen k dst).bind
  intro length _
  apply (endsOr_copyString k (dst + length) src n).bind
  intro copied _
  exact (endsOr_storeByte (dst + length + copied) 0).bind_pure

/-! ### The search for a string -/

theorem endsOr_narrow (k : RegisterKind) (needle : Needle) (p : Pointer) (candidates : Mask) :
    EndsOr faults (narrow k needle p candidates) fun _ => True := by
  unfold narrow
  split
  · exact endsOr_pure trivial
  · dsimp only
    have hlast : ∀ bySecond, EndsOr faults (do
        if needle.length - 1 + k.width ≤ roomInPage p.address then
          let v ← k.load (p + (needle.length - 1))
          return bySecond &&& k.eqMask v (k.splat needle.last)
        else return bySecond) fun _ => True := by
      intro bySecond
      split
      · exact (endsOr_load k (p + (needle.length - 1))).bind_pure
      · exact endsOr_pure trivial
    split
    · apply (endsOr_load k (p + 1)).bind
      intro v _
      exact hlast _
    · exact hlast _

theorem endsOr_verify (k : RegisterKind) (needle : Needle) (p : Pointer) (exhausted : Verdict)
    (count : Nat) (candidates : Mask) :
    EndsOr faults (verify k needle p exhausted count candidates) fun _ => True := by
  induction count generalizing candidates with
  | zero => exact endsOr_pure trivial
  | succ count ih =>
    rw [verify]
    split
    · exact endsOr_pure trivial
    · rename_i i _
      apply (endsOr_decisivePosition k (p + i) needle.start needle.length).bind
      intro found _
      cases found with
      | none => exact endsOr_pure trivial
      | some j =>
        apply (endsOr_loadByte (p + i + j)).bind
        intro byte _
        split
        · exact endsOr_pure trivial
        · exact ih (Mask.clearFirst candidates)

theorem endsOr_searchRegister (k : RegisterKind) (needle : Needle) (p : Pointer) (v : Register k)
    (valid : Nat) : EndsOr faults (searchRegister k needle p v valid) fun _ => True := by
  unfold searchRegister
  dsimp only
  split
  · exact endsOr_pure trivial
  · rename_i candidates _
    apply (endsOr_narrow k needle p candidates).bind
    intro left _
    exact endsOr_verify k needle p _ 64 left

/-- The loop of the search, at an aligned offset. -/
theorem endsOr_searchFrom {needle : Needle} (halign : (s.address + off) % k.width = 0) :
    EndsOr (· = .addressSpaceEnd) (searchFrom k needle s off) fun _ => True := by
  induction hleft : addressSpace - (s.address + off) using Nat.strongRecOn generalizing off with
  | ind left ih =>
    rw [searchFrom]
    split
    · rename_i hin
      apply (endsOr_loadAligned halign).bind
      intro v _
      apply (endsOr_searchRegister k needle (s + off) v k.width).bind
      intro verdict _
      cases verdict with
      | occurs q => exact endsOr_pure trivial
      | absent => exact endsOr_pure trivial
      | undecided =>
        have hwidth := k.width_pos
        refine ih _ (by omega) ?_ rfl
        rw [← Nat.add_assoc]
        exact k.add_width_mod halign
    · exact endsOr_throw rfl

theorem endsOr_searchNeedle (k : RegisterKind) (needle : Needle) (s : Pointer) :
    EndsOr (· = .addressSpaceEnd) (searchNeedle k needle s) fun _ => True := by
  unfold searchNeedle
  apply (endsOr_loadHead k s).bind
  rintro ⟨v, valid⟩ _
  apply (endsOr_searchRegister k needle s v valid).bind
  intro verdict _
  cases verdict with
  | occurs q => exact endsOr_pure trivial
  | absent => exact endsOr_pure trivial
  | undecided => exact endsOr_searchFrom (k.add_toBoundary_mod s.address)

theorem endsOr_strstr (k : RegisterKind) (haystack needle : Pointer) :
    EndsOr (· = .addressSpaceEnd) (strstr k haystack needle) fun _ => True := by
  unfold strstr
  apply (endsOr_loadByte needle).bind
  intro first _
  split
  · exact endsOr_pure trivial
  · apply (endsOr_loadByte haystack).bind
    intro start _
    split
    · exact endsOr_pure trivial
    · apply (endsOr_loadByte (needle + 1)).bind
      intro second _
      split
      · exact endsOr_strchr k haystack first
      · apply (endsOr_strlen k needle).bind
        intro length _
        apply (endsOr_loadByte (needle + (length - 1))).bind
        intro last _
        exact endsOr_searchNeedle k _ haystack

/-! ### Tables -/

/-- `q` holds of every run of the routine, with any arguments and from any machine. -/
def Operation.EveryRun (q : (α : Type) → Exec α → Machine → Prop) :
    (op : Operation) → op.Routine → Prop
  | memcpy, run | mempcpy, run | memmove, run | strncpy, run | strncat, run =>
    ∀ dst src n s, q Pointer (run dst src n) s
  | memset, run => ∀ dst value n s, q Pointer (run dst value n) s
  | memcmp, run | strncmp, run => ∀ a b n s, q Int (run a b n) s
  | memchr, run => ∀ p byte n s, q (Option Pointer) (run p byte n) s
  | strcpy, run | strcat, run => ∀ dst src s, q Pointer (run dst src) s
  | strcmp, run => ∀ a b s, q Int (run a b) s
  | strstr, run => ∀ haystack needle s, q (Option Pointer) (run haystack needle) s
  | strlen, run => ∀ p s, q Nat (run p) s
  | strchr, run => ∀ p byte s, q (Option Pointer) (run p byte) s

/-- The faults that the routine of an operation may stop with: where it scans a string that has no
end, it runs off the end of the address space. -/
def Operation.StopsWith : Operation → Fault → Prop
  | strcat, fault | strncat, fault | strstr, fault | strlen, fault | strchr, fault =>
    fault = .addressSpaceEnd
  | _, _ => False

theorem Operation.StopsWith.not_isMisuse {op : Operation} {fault : Fault}
    (h : op.StopsWith fault) : ¬ fault.IsMisuse := by
  have hend : fault = .addressSpaceEnd := by
    cases op <;> first | exact h | exact h.elim
  rw [hend]
  exact id

/-- The run misuses no instruction, and where it stops, the operation is one that may. -/
def KeepsPreconditions (op : Operation) {α : Type} (x : Exec α) (s : Machine) : Prop :=
  ¬ Misuses x s ∧ ∀ fault s', x s = .error fault s' → op.StopsWith fault

theorem keepsPreconditions_of_endsOr {α : Type} {x : Exec α} {post : α → Prop} (op : Operation)
    (h : EndsOr op.StopsWith x post) (s : Machine) : KeepsPreconditions op x s := by
  constructor
  · rintro ⟨fault, s', hrun, hmisuse⟩
    exact (h.error hrun).not_isMisuse hmisuse
  · intro fault s' hrun
    exact h.error hrun

/-- **No run of a routine uses an instruction outside its precondition**, whatever the variant, the
thresholds, the arguments and the machine. The instructions check their preconditions exactly and a
misuse ends the run, so every one that a run comes to was used as it may be. -/
theorem routines_keep_preconditions :
    (∀ k, ChecksPreconditions k) ∧
      (∀ {α β : Type} (x : Exec α) (f : α → Exec β) (s : Machine), Misuses (x >>= f) s ↔
        Misuses x s ∨ ∃ value s', x s = .ok value s' ∧ Misuses (f value) s') ∧
      ∀ variant t (op : Operation), op.EveryRun (fun _ x s => KeepsPreconditions op x s)
        (RoutineTable.ofVariant variant t op) := by
  refine ⟨checksPreconditions, fun _ _ _ => misuses_bind_iff, ?_⟩
  intro variant t op
  cases op with
  | memcpy =>
    intro dst src n
    exact keepsPreconditions_of_endsOr _ (endsOr_memcpy _ _ dst src n)
  | mempcpy =>
    intro dst src n
    exact keepsPreconditions_of_endsOr _ (endsOr_mempcpy _ _ dst src n)
  | memmove =>
    intro dst src n
    exact keepsPreconditions_of_endsOr _ (endsOr_memmove _ _ dst src n)
  | memset =>
    intro dst value n
    exact keepsPreconditions_of_endsOr _ (endsOr_memset _ _ dst value n)
  | memcmp =>
    intro a b n
    exact keepsPreconditions_of_endsOr _ (endsOr_memcmp _ a b n)
  | memchr =>
    intro p byte n
    exact keepsPreconditions_of_endsOr _ (endsOr_memchr _ p byte n)
  | strcpy =>
    intro dst src
    exact keepsPreconditions_of_endsOr _ (endsOr_strcpy _ dst src)
  | strncpy =>
    intro dst src n
    exact keepsPreconditions_of_endsOr _ (endsOr_strncpy _ _ dst src n)
  | strcat =>
    intro dst src
    exact keepsPreconditions_of_endsOr _ (endsOr_strcat _ dst src)
  | strncat =>
    intro dst src n
    exact keepsPreconditions_of_endsOr _ (endsOr_strncat _ dst src n)
  | strcmp =>
    -- The comparison without a bound is the one with the largest bound.
    intro a b
    exact keepsPreconditions_of_endsOr _ (endsOr_strncmp _ a b maxLength)
  | strncmp =>
    intro a b n
    exact keepsPreconditions_of_endsOr _ (endsOr_strncmp _ a b n)
  | strstr =>
    intro haystack needle
    exact keepsPreconditions_of_endsOr _ (endsOr_strstr _ haystack needle)
  | strlen =>
    intro p
    exact keepsPreconditions_of_endsOr _ (endsOr_strlen _ p)
  | strchr =>
    intro p byte
    exact keepsPreconditions_of_endsOr _ (endsOr_strchr _ p byte)

end ByteRoutines
