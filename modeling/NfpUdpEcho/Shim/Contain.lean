import NfpUdpEcho.Shim.Refinement
import NfpUdpEcho.Shim.SysCalls

/-!
# What the shim makes of a misbehaving server

A call returns a result that is not -1, and stores what it has read, only after its whole request
was sent and the whole reply was received: `ShimCall.Contained`. `contained_iff` says for which
answers of the socket that is so. There are two ways to break it, besides the reads through a
short struct: a result of -1 passes the tests that compare it with a size, and the length that a
read is answered with is not compared with the count.

The condition is a list of cases on the answers, one for each place where a call can go wrong, and
the proof goes down the program of the call with the rules `play_sendWord`, `play_readStatus` and
the like. At every early return both sides are true: nothing was stored and the result is -1. At the
end of a call both sides are the same fact about lengths, for what was sent can be read off its
length: `word_append_iff` and `taken_header` say that the words of a request are all there exactly
if no call to send one has failed.

An `ioctl` has more ends than the transfers, so that its proof is cut where its program is: the two
words (`ioctl_contained_iff`), the argument (`arg_contained_iff`), the status
(`status_contained_iff`) and the struct that comes back (`reply_contained_iff`). `Requested` and
`Asked` carry from one to the next what has gone through the socket.
-/

namespace NfpUdpEcho

open Duplex Socket ByteMem LittleEndian

/-! ### What a call is to keep to -/

/-- A read stores nothing from index `count` on, and returns -1, or as many bytes as it has
received after its request was sent and a status received. -/
structure PreadContained (buf : Mem) (count offset : UInt64) (rec : Record (List UInt8))
    (a : ShimResult) : Prop where
  stored : a.mem = some (buf.store 0 rec.payload)
  inBounds : rec.payload.length ≤ count.toNat
  returns : a.ret = -1 ∨ ∃ n : ℕ, a.ret = n ∧ n ≤ count.toNat ∧
    rec.sent = preadRequest count offset ∧ rec.heard.length = 8 ∧ rec.payload.length = n

/-- A write returns a count only after its request was sent and a status received. -/
def PwriteContained (buf : Mem) (count offset : UInt64) (rec : Record (List UInt8))
    (a : ShimResult) : Prop :=
  0 ≤ a.ret → rec.sent = pwriteRequest count offset buf ∧ rec.heard.length = 8

/-- The request of an `ioctl`, `none` when there is an argument to send but nowhere to read it. -/
def ioctlRequest (request : UInt64) (argp : Option Mem) : Option (List UInt8) :=
  match Shim.argSize request, argp with
  | none, _ => none
  | some size, some mem => some (u64Bytes opIoctl ++ (u64Bytes request ++ mem.load 0 size))
  | some size, none =>
    if size = 0 then some (u64Bytes opIoctl ++ (u64Bytes request ++ [])) else none

/-- An `ioctl` returns a value that is not negative, and stores through `argp`, only after its
request was sent and the status and the struct of the reply received. -/
def IoctlContained (request : UInt64) (argp : Option Mem) (rec : Record (List UInt8))
    (a : ShimResult) : Prop :=
  0 ≤ a.ret ∨ rec.ops.flatten ≠ [] →
    ioctlRequest request argp = some rec.sent ∧ rec.heard.length = 8 + replySize request

/-- The rule for each of the calls. -/
def ShimCall.Contained : ShimCall → Record (List UInt8) → ShimResult → Prop
  | .pread buf count offset, rec, a | .pread64 buf count offset, rec, a =>
    PreadContained buf count offset rec a
  | .pwrite buf count offset, rec, a | .pwrite64 buf count offset, rec, a =>
    PwriteContained buf count offset rec a
  | .ioctl request argp, rec, a => IoctlContained request argp rec a

/-! ### The answers with which it does -/

/-- The status as the code sees it: when the read fails, `temp` keeps the word sent last. -/
def statusOf (temp : UInt64) : Option (List UInt8) → UInt64
  | none => temp
  | some bytes => u64OfBytes bytes

/-- The status is short or negative; or no more than `count` bytes of the payload come, and the
payload breaks off or every call before it did what it was asked for. -/
def PreadSafe (count offset : UInt64) : List Move → Prop
  | .wrote r₁ :: .wrote r₂ :: .wrote r₃ :: .got st :: rest =>
    isShort (st.map List.length) 8 = true ∨ asInt (statusOf offset st) < 0 ∨
      (moved rest).length ≤ count.toNat ∧ (.got none ∈ rest ∨
        (r₁ ≠ none ∧ r₂ ≠ none ∧ r₃ ≠ none ∧ st ≠ none ∧ (statusOf offset st).toNat < 2 ^ 63))
  -- the request was cut short
  | _ => True

/-- The payload or the status is cut short, or the status is negative, or no call failed. -/
def PwriteSafe (offset : UInt64) : List Move → Prop
  | .wrote r₁ :: .wrote r₂ :: .wrote r₃ :: rest =>
    match rest.getLast? with
    | some (.got st) =>
      isShort (st.map List.length) 8 = true ∨ asInt (statusOf offset st) < 0 ∨
        (statusOf offset st).toInt64 < 0 ∨ (r₁ ≠ none ∧ r₂ ≠ none ∧ r₃ ≠ none ∧ st ≠ none)
    | _ => True
  | _ => True

/-- The least size of a struct that the code takes for a whole one. -/
def leastReply (request : UInt64) : ℕ :=
  if request = nfpIoctlFirmwareLast then 4 else identificationSize

/-- After a status that is not negative. `whole` says that every call so far did what it was
asked for. -/
def ReplySafe (request : UInt64) (argp : Option Mem) (whole : Prop) : List Move → Prop
  -- to copy to a null pointer ends the process
  | .got none :: _ => argp = none ∧ request ≠ nfpIoctlFirmwareLast
  | .got (some bytes) :: _ => argp = none ∨
    (bytes.length < leastReply request ∧ (request = nfpIoctlFirmwareLast → bytes = [])) ∨
    (whole ∧ bytes.length = replySize request)
  | _ => whole ∧ replySize request = 0

/-- At the status. -/
def StatusSafe (request : UInt64) (argp : Option Mem) (whole : Prop) : List Move → Prop
  | .got st :: rest => isShort (st.map List.length) 8 = true ∨ asInt (statusOf request st) < 0 ∨
    ReplySafe request argp (whole ∧ st ≠ none) rest
  | _ => True

/-- At the argument; one that is not there cannot be sent. -/
def ArgSafe (request : UInt64) (argp : Option Mem) (size : ℕ) (whole : Prop)
    (moves : List Move) : Prop :=
  match argp with
  | none => StatusSafe request argp (whole ∧ size = 0) moves
  | some _ =>
    if size > 0 then
      match moves with
      | .wrote r :: rest => isShort r size = true ∨ StatusSafe request argp (whole ∧ r ≠ none) rest
      | _ => True
    else StatusSafe request argp whole moves

/-- At the first word. -/
def IoctlSafe (request : UInt64) (argp : Option Mem) : List Move → Prop
  | .wrote r₁ :: rest => isShort r₁ 8 = true ∨
    -- an identification without an argument ends here
    ¬(request = nfpIoctlCppIdentification ∧ argp.isNone) ∧
      match Shim.argSize request, rest with
      | some size, .wrote r₂ :: rest => isShort r₂ 8 = true ∨
        ArgSafe request argp size (r₁ ≠ none ∧ r₂ ≠ none) rest
      | _, _ => True
  | _ => True

/-- The answers with which a call keeps to it. -/
def ShimCall.Safe : ShimCall → List Move → Prop
  | .pread _ count offset, moves | .pread64 _ count offset, moves => PreadSafe count offset moves
  | .pwrite _ _ offset, moves | .pwrite64 _ _ offset, moves => PwriteSafe offset moves
  | .ioctl request argp, moves => IoctlSafe request argp moves

/-! ### Words that are sent and received -/

section Words

variable {moves : List Move} {rec : Record (List UInt8)} {a : ShimResult} {word temp : UInt64}
  {mem : Option Mem} {k : ShimSock} {ks : UInt64 → ShimSock} {r r₁ r₂ r₃ : Option ℕ}

/-- A word was cut short and the call is over, or it was sent, or the call to send it failed. -/
theorem play_sendWord (h : play moves (Shim.sendWord word mem k) = some (rec, .ret a)) :
    ∃ r rest, moves = .wrote r :: rest ∧
      ((isShort r 8 = true ∧ rest = [] ∧ a = Shim.errorResult mem ∧ ∃ out, rec = .ofSent out) ∨
        (isShort r 8 = false ∧ (r = none ∨ r = some 8) ∧ ∃ rec', play rest k = some (rec', .ret a) ∧
          rec = (Record.ofSent (taken (u64Bytes word) r)).append rec')) := by
  obtain ⟨r, rest, rec', rfl, hle, hplay, rfl⟩ := play_write h
  rw [length_u64Bytes] at hle
  refine ⟨r, rest, rfl, ?_⟩
  by_cases hshort : isShort r 8 = true
  · -- `ret < sizeof(temp)`: `handle_error`
    rw [if_pos hshort] at hplay
    obtain ⟨rfl, rfl, rfl⟩ := play_answer hplay
    exact .inl ⟨hshort, rfl, rfl, _, rfl⟩
  · rw [if_neg hshort] at hplay
    -- The word was sent, or the call gave -1, which as an unsigned number is not below the size.
    rw [Bool.not_eq_true] at hshort
    exact .inr ⟨hshort, isShort_eq_false hle hshort, rec', hplay, rfl⟩

/-- The same for a status. -/
theorem play_readStatus (h : play moves (Shim.readStatus temp mem ks) = some (rec, .ret a)) :
    ∃ r rest, moves = .got r :: rest ∧
      ((isShort (r.map List.length) 8 = true ∧ rest = [] ∧ a = Shim.errorResult mem ∧
          ∃ bytes, rec = .ofHeard bytes) ∨
        (isShort (r.map List.length) 8 = false ∧ (r = none ∨ (received r).length = 8) ∧
          ∃ rec', play rest (ks (statusOf temp r)) = some (rec', .ret a) ∧
          rec = (Record.ofHeard (received r)).append rec')) := by
  obtain ⟨r, rest, rec', rfl, hle, hplay, rfl⟩ := play_read h
  refine ⟨r, rest, rfl, ?_⟩
  by_cases hshort : isShort (r.map List.length) 8 = true
  · rw [if_pos hshort] at hplay
    obtain ⟨rfl, rfl, rfl⟩ := play_answer hplay
    exact .inl ⟨hshort, rfl, rfl, _, rfl⟩
  · rw [if_neg hshort] at hplay
    rw [Bool.not_eq_true] at hshort
    refine .inr ⟨hshort, ?_, rec', ?_, rfl⟩
    · cases r with
      | none => exact .inl rfl
      | some bytes =>
        rw [Option.map_some, isShort_some, decide_eq_false_iff_not, not_lt] at hshort
        exact .inr (Nat.le_antisymm (hle bytes rfl) hshort)
    · cases r with
      | none => exact hplay
      | some bytes => exact hplay

/-- A word that was not cut short was sent when its call did not fail. -/
theorem word_append_iff {x y : List UInt8} (h : r = none ∨ r = some 8) (hle : x.length ≤ y.length) :
    taken (u64Bytes word) r ++ x = u64Bytes word ++ y ↔ r ≠ none ∧ x = y :=
  taken_append_iff (u64Bytes_ne_nil word) (by rwa [length_u64Bytes]) hle

/-- What is sent is no longer than what was to be sent. -/
theorem length_word_append_le {x y : List UInt8} (hle : x.length ≤ y.length) :
    (taken (u64Bytes word) r ++ x).length ≤ (u64Bytes word ++ y).length := by
  rw [List.length_append, List.length_append]
  exact Nat.add_le_add (length_taken_le _ r) hle

/-- The three words of a header are all sent when no call has failed. -/
theorem taken_header (w₁ w₂ w₃ : UInt64) (tail : List UInt8) (h₁ : r₁ = none ∨ r₁ = some 8)
    (h₂ : r₂ = none ∨ r₂ = some 8) (h₃ : r₃ = none ∨ r₃ = some 8) :
    taken (u64Bytes w₁) r₁ ++ (taken (u64Bytes w₂) r₂ ++ (taken (u64Bytes w₃) r₃ ++ tail)) =
        u64Bytes w₁ ++ (u64Bytes w₂ ++ (u64Bytes w₃ ++ tail)) ↔
      r₁ ≠ none ∧ r₂ ≠ none ∧ r₃ ≠ none := by
  have hthird : (taken (u64Bytes w₃) r₃ ++ tail).length ≤ (u64Bytes w₃ ++ tail).length :=
    length_word_append_le le_rfl
  rw [word_append_iff h₁ (length_word_append_le hthird), word_append_iff h₂ hthird,
    word_append_iff h₃ le_rfl]
  exact and_congr_right fun _ => and_congr_right fun _ => and_iff_left rfl

end Words

/-! ### `pread` -/

section Pread

variable {buf : Mem} {count offset : UInt64} {moves : List Move} {rec : Record (List UInt8)}
  {a : ShimResult}

/-- A call that has stored nothing and returns -1. -/
theorem preadContained_refused (hmem : a.mem = some buf) (hret : a.ret = -1)
    (hpayload : rec.payload = []) : PreadContained buf count offset rec a where
  stored := by rw [hmem, hpayload, Mem.store_nil]
  inBounds := by
    rw [hpayload]
    exact Nat.zero_le _
  returns := .inl hret

/-- None of the calls of a loop that got its bytes has failed. -/
theorem got_none_mem {calls : List Move} (h : ∀ mv ∈ calls, ∃ bytes, mv = .got (some bytes)) :
    .got none ∉ calls := by
  intro hmem
  obtain ⟨bytes, hbytes⟩ := h _ hmem
  cases hbytes

/-- The payload has come: what was received is stored, and the status returned. -/
theorem pread_complete_iff {r₁ r₂ r₃ : Option ℕ} {st : Option (List UInt8)} {data : List UInt8}
    (h₁ : r₁ = none ∨ r₁ = some 8) (h₂ : r₂ = none ∨ r₂ = some 8) (h₃ : r₃ = none ∨ r₃ = some 8)
    (hst : st = none ∨ (received st).length = 8) (hneg : ¬asInt (statusOf offset st) < 0)
    (hsent : rec.sent = taken (u64Bytes opPread) r₁ ++ (taken (u64Bytes count) r₂ ++
      (taken (u64Bytes offset) r₃ ++ [])))
    (hheard : rec.heard = received st) (hpayload : rec.payload = data)
    (hlen : data.length = (statusOf offset st).toNat)
    (hmem : a.mem = some (buf.store 0 data)) (hret : a.ret = (statusOf offset st).toInt64.toInt) :
    PreadContained buf count offset rec a ↔ data.length ≤ count.toNat ∧
      r₁ ≠ none ∧ r₂ ≠ none ∧ r₃ ≠ none ∧ st ≠ none ∧ (statusOf offset st).toNat < 2 ^ 63 := by
  subst hpayload
  constructor
  · rintro ⟨-, hin, hanswer⟩
    rw [hret, hsent, hheard] at hanswer
    rcases hanswer with hanswer | ⟨n, hn, -, hwords, hstatus, -⟩
    · -- the status -1 is negative as an `int` too
      exact absurd (asInt_neg_of_eq hanswer) hneg
    · obtain ⟨hr₁, hr₂, hr₃⟩ := (taken_header _ _ _ [] h₁ h₂ h₃).mp hwords
      refine ⟨hin, hr₁, hr₂, hr₃, ?_, ?_⟩
      · rintro rfl
        cases hstatus
      · -- a result that is not negative is a status below `2 ^ 63`
        refine (toInt64_nonneg_iff _).mp ?_
        rw [hn]
        exact Int.natCast_nonneg n
  · rintro ⟨hin, hr₁, hr₂, hr₃, hst', hlt⟩
    refine ⟨hmem, hin, .inr ⟨_, hret.trans (toInt64_toInt hlt), ?_, ?_, ?_, hlen⟩⟩
    · rwa [← hlen]
    · exact hsent.trans ((taken_header _ _ _ [] h₁ h₂ h₃).mpr ⟨hr₁, hr₂, hr₃⟩)
    · rw [hheard]
      exact hst.resolve_left hst'

/-- **A read.** -/
theorem pread_contained_iff
    (h : play moves (Shim.preadCalls buf count offset) = some (rec, .ret a)) :
    PreadContained buf count offset rec a ↔ PreadSafe count offset moves := by
  -- Each of the three words of the header may be cut short, and the status after them.
  obtain ⟨r₁, rest, rfl, ⟨-, rfl, rfl, out, rfl⟩ | ⟨-, h₁, rec, hcount, rfl⟩⟩ := play_sendWord h
  · exact iff_of_true (preadContained_refused rfl rfl rfl) trivial
  obtain ⟨r₂, rest, rfl, ⟨-, rfl, rfl, out, rfl⟩ | ⟨-, h₂, rec, hoffset, rfl⟩⟩ :=
    play_sendWord hcount
  · exact iff_of_true (preadContained_refused rfl rfl rfl) trivial
  obtain ⟨r₃, rest, rfl, ⟨-, rfl, rfl, out, rfl⟩ | ⟨-, h₃, rec, hstatus, rfl⟩⟩ :=
    play_sendWord hoffset
  · exact iff_of_true (preadContained_refused rfl rfl rfl) trivial
  obtain ⟨st, rest, rfl, ⟨hshort, rfl, rfl, out, rfl⟩ | ⟨hlong, hst, rec, hreply, rfl⟩⟩ :=
    play_readStatus hstatus
  · exact iff_of_true (preadContained_refused rfl rfl rfl) (.inl hshort)
  -- `if (status < 0)`: the call is over, and has stored nothing
  by_cases hneg : asInt (statusOf offset st) < 0
  · rw [if_pos hneg] at hreply
    obtain ⟨rfl, rfl, rfl⟩ := play_answer hreply
    exact iff_of_true (preadContained_refused rfl rfl rfl) (.inr (.inl hneg))
  rw [if_neg hneg] at hreply
  rw [PreadSafe, hlong, or_iff_right Bool.false_ne_true, or_iff_right hneg]
  rcases play_readRest hreply with ⟨calls, rest, rec, rfl, hcalls, hlen, hend, rfl⟩ |
    ⟨calls, rest, rec, rfl, hcalls, hlen, hend, rfl⟩
  · -- the payload is complete
    obtain ⟨rfl, rfl, rfl⟩ := play_answer hend
    rw [List.append_nil, or_iff_right (got_none_mem hcalls)]
    exact pread_complete_iff h₁ h₂ h₃ hst hneg rfl (List.append_nil _) (List.append_nil _) hlen
      rfl rfl
  · -- it breaks off, and the call returns -1
    obtain ⟨rfl, rfl, rfl⟩ := play_answer hend
    have hmoved : moved (calls ++ [.got none]) = moved calls := by
      rw [moved_append]
      exact List.append_nil _
    have hmem : Move.got none ∈ calls ++ [.got none] := by simp
    rw [hmoved, and_iff_left (.inl hmem)]
    constructor
    · rintro ⟨-, hin, -⟩
      have hin' : (moved calls ++ []).length ≤ count.toNat := hin
      rwa [List.append_nil] at hin'
    · intro hin
      refine ⟨?_, ?_, .inl rfl⟩
      · show some (buf.store 0 ([] ++ moved calls)) = some (buf.store 0 (moved calls ++ []))
        rw [List.nil_append, List.append_nil]
      · show (moved calls ++ []).length ≤ _
        rwa [List.append_nil]

end Pread

/-! ### `pwrite` -/

section Pwrite

variable {buf : Mem} {count offset : UInt64} {moves : List Move} {rec : Record (List UInt8)}
  {a : ShimResult}

/-- A write that returns -1. -/
theorem pwriteContained_refused (hret : a.ret = -1) : PwriteContained buf count offset rec a := by
  intro hnonneg
  rw [hret] at hnonneg
  exact absurd hnonneg (by decide)

/-- The payload has gone and the status come: a status whose top bit is set is a negative
result. -/
theorem pwrite_answered_iff {r₁ r₂ r₃ : Option ℕ} {st : Option (List UInt8)}
    (h₁ : r₁ = none ∨ r₁ = some 8) (h₂ : r₂ = none ∨ r₂ = some 8) (h₃ : r₃ = none ∨ r₃ = some 8)
    (hst : st = none ∨ (received st).length = 8)
    (hsent : rec.sent = taken (u64Bytes opPwrite) r₁ ++ (taken (u64Bytes count) r₂ ++
      (taken (u64Bytes offset) r₃ ++ (buf.load 0 count.toNat ++ []))))
    (hheard : rec.heard = received st) (hret : a.ret = (statusOf offset st).toInt64.toInt) :
    PwriteContained buf count offset rec a ↔ (statusOf offset st).toInt64 < 0 ∨
      (r₁ ≠ none ∧ r₂ ≠ none ∧ r₃ ≠ none ∧ st ≠ none) := by
  rw [PwriteContained, hret, hsent, hheard, Int64.lt_iff_toInt_lt]
  constructor
  · intro hcontained
    rcases lt_or_ge (statusOf offset st).toInt64.toInt 0 with hword | hword
    · exact .inl hword
    obtain ⟨hwords, hstatus⟩ := hcontained hword
    obtain ⟨hr₁, hr₂, hr₃⟩ := (taken_header _ _ _ _ h₁ h₂ h₃).mp hwords
    refine .inr ⟨hr₁, hr₂, hr₃, ?_⟩
    rintro rfl
    cases hstatus
  -- a negative result promises nothing
  · rintro (hword | ⟨hr₁, hr₂, hr₃, hst'⟩) hnonneg
    · exact absurd hword (not_lt.mpr hnonneg)
    · exact ⟨(taken_header _ _ _ _ h₁ h₂ h₃).mpr ⟨hr₁, hr₂, hr₃⟩, hst.resolve_left hst'⟩

/-- **A write.** -/
theorem pwrite_contained_iff
    (h : play moves (Shim.pwriteCalls buf count offset) = some (rec, .ret a)) :
    PwriteContained buf count offset rec a ↔ PwriteSafe offset moves := by
  obtain ⟨r₁, rest, rfl, ⟨-, rfl, rfl, out, rfl⟩ | ⟨-, h₁, rec, hcount, rfl⟩⟩ := play_sendWord h
  · exact iff_of_true (pwriteContained_refused rfl) trivial
  obtain ⟨r₂, rest, rfl, ⟨-, rfl, rfl, out, rfl⟩ | ⟨-, h₂, rec, hoffset, rfl⟩⟩ :=
    play_sendWord hcount
  · exact iff_of_true (pwriteContained_refused rfl) trivial
  obtain ⟨r₃, rest, rfl, ⟨-, rfl, rfl, out, rfl⟩ | ⟨-, h₃, rec, hpayload, rfl⟩⟩ :=
    play_sendWord hoffset
  · exact iff_of_true (pwriteContained_refused rfl) trivial
  rw [PwriteSafe]
  rcases play_writeAll hpayload with ⟨calls, rest, rec, rfl, hcalls, hstatus, rfl⟩ |
    ⟨calls, rest, out, rec, rfl, hend, rfl⟩
  · -- the whole payload was taken, and the status is read
    obtain ⟨st, rest, rfl, ⟨hshort, rfl, rfl, out, rfl⟩ | ⟨hlong, hst, rec, hreply, rfl⟩⟩ :=
      play_readStatus hstatus
    · rw [List.getLast?_concat]
      exact iff_of_true (pwriteContained_refused rfl) (.inl hshort)
    by_cases hneg : asInt (statusOf offset st) < 0
    · rw [if_pos hneg] at hreply
      obtain ⟨rfl, rfl, rfl⟩ := play_answer hreply
      rw [List.getLast?_concat]
      exact iff_of_true (pwriteContained_refused rfl) (.inr (.inl hneg))
    -- Now the status is the result.
    rw [if_neg hneg] at hreply
    obtain ⟨rfl, rfl, rfl⟩ := play_answer hreply
    rw [List.getLast?_concat]
    dsimp only
    rw [hlong, or_iff_right Bool.false_ne_true, or_iff_right hneg]
    exact pwrite_answered_iff h₁ h₂ h₃ hst rfl (List.append_nil _) rfl
  · -- the payload was cut short
    obtain ⟨rfl, rfl, rfl⟩ := play_answer hend
    rw [List.getLast?_concat]
    exact iff_of_true (pwriteContained_refused rfl) trivial

end Pwrite

/-! ### `ioctl` -/

section Ioctl

variable {stack : Mem} {request temp : UInt64} {argp : Option Mem} {moves : List Move}
  {pre rec : Record (List UInt8)} {a : ShimResult} {whole : Prop} {n : ℕ} {size : Mem → ℕ} {ret : ℤ}

/-- A call that has stored nothing and returns -1. -/
theorem ioctlContained_refused (hret : a.ret = -1) (hops : rec.ops = []) :
    IoctlContained request argp rec a := by
  rintro (hnonneg | hstored)
  · rw [hret] at hnonneg
    exact absurd hnonneg (by decide)
  · rw [hops] at hstored
    exact absurd rfl hstored

/-- What has gone through the socket when the reply comes: `whole` says that it was the whole
request, and a status. -/
structure Asked (request : UInt64) (argp : Option Mem) (whole : Prop)
    (pre : Record (List UInt8)) : Prop where
  whole_iff : whole ↔ ioctlRequest request argp = some pre.sent ∧ pre.heard.length = 8
  heard_le : pre.heard.length ≤ 8
  no_ops : pre.ops = []

/-- A call that returns a value or stores one keeps to the rule when its reply is whole. -/
theorem Asked.speaks_iff (hpre : Asked request argp whole pre) (hsent : rec.sent = [])
    (hle : rec.heard.length ≤ replySize request) (hspeaks : 0 ≤ a.ret ∨ rec.ops.flatten ≠ []) :
    IoctlContained request argp (pre.append rec) a ↔
      whole ∧ rec.heard.length = replySize request := by
  have hspeaks' : 0 ≤ a.ret ∨ (pre.append rec).ops.flatten ≠ [] := by
    rw [Record.append, hpre.no_ops]
    exact hspeaks
  have hsent' : (pre.append rec).sent = pre.sent := by
    rw [Record.append, hsent, List.append_nil]
  have hheard : (pre.append rec).heard.length = pre.heard.length + rec.heard.length :=
    List.length_append
  have hpos := hpre.heard_le
  rw [IoctlContained, hpre.whole_iff, hsent', hheard]
  -- eight bytes of what was received are the status, and the rest is the struct
  constructor
  · intro h
    obtain ⟨hreq, hlen⟩ := h hspeaks'
    exact ⟨⟨hreq, by omega⟩, by omega⟩
  · rintro ⟨⟨hreq, hstatus⟩, hlen⟩ -
    exact ⟨hreq, by omega⟩

/-- A call that is refused keeps to the rule. -/
theorem Asked.refused (hpre : Asked request argp whole pre) (hret : a.ret = -1)
    (hops : rec.ops = []) : IoctlContained request argp (pre.append rec) a := by
  refine ioctlContained_refused hret ?_
  rw [Record.append, hpre.no_ops, hops]
  rfl

/-- A struct that is read onto the stack is copied when its first 20 bytes have come. -/
theorem readStruct_contained_iff (hpre : Asked request argp whole pre) (hret : 0 ≤ ret)
    (hn : replySize request = n) (hfirmware : request ≠ nfpIoctlFirmwareLast)
    (hpos : identificationSize ≤ n)
    (h : play moves (Shim.readStruct stack argp n size ret) = some (rec, .ret a)) :
    IoctlContained request argp (pre.append rec) a ↔ ReplySafe request argp whole moves := by
  obtain ⟨r, rest, rec, rfl, hle, hstore, rfl⟩ := play_read h
  have hleast : leastReply request = identificationSize := if_neg hfirmware
  by_cases hshort : isShort (r.map List.length) identificationSize = true
  · -- fewer than 20 bytes
    rw [if_pos hshort] at hstore
    obtain ⟨rfl, rfl, rfl⟩ := play_answer hstore
    refine iff_of_true (hpre.refused rfl rfl) ?_
    cases r with
    | none => cases hshort
    | some bytes =>
      rw [Option.map_some, isShort_some, decide_eq_true_eq, ← hleast] at hshort
      exact .inr (.inl ⟨hshort, fun heq => absurd heq hfirmware⟩)
  rw [if_neg hshort] at hstore
  cases argp with
  | none =>
    -- the copy to a null pointer: the process ends
    obtain ⟨rfl, rfl, rfl⟩ := play_answer hstore
    refine iff_of_true (hpre.refused rfl rfl) ?_
    cases r with
    | none => exact ⟨rfl, hfirmware⟩
    | some bytes => exact .inl rfl
  | some mem =>
    dsimp only [Shim.storeArg] at hstore
    obtain ⟨rest, rec, rfl, hend, rfl⟩ := play_perform hstore
    obtain ⟨rfl, rfl, rfl⟩ := play_answer hend
    cases r with
    | none =>
      -- what was on the stack is copied
      rw [hpre.speaks_iff rfl (Nat.zero_le _) (.inl hret)]
      refine iff_of_false ?_ ?_
      · rintro ⟨-, hlen⟩
        have hzero : 0 = replySize request := hlen
        rw [hn] at hzero
        exact absurd hpos (by rw [← hzero]; decide)
      · rintro ⟨hnull, -⟩
        cases hnull
    | some bytes =>
      have hlen : bytes.length ≤ n := hle bytes rfl
      have hheard : (bytes ++ []).length = bytes.length := by rw [List.append_nil]
      rw [hpre.speaks_iff rfl (by rw [hn]; exact hheard.trans_le hlen) (.inl hret)]
      show whole ∧ (bytes ++ []).length = _ ↔ _
      rw [hheard, ReplySafe, or_iff_right (Option.some_ne_none mem), or_iff_right]
      rintro ⟨hlt, -⟩
      rw [hleast] at hlt
      rw [Option.map_some, isShort_some, decide_eq_true_eq] at hshort
      exact hshort hlt

/-- To a null pointer nothing is stored, but a `read` that fails passes for a reply. -/
theorem readFirmware_null_contained_iff (hpre : Asked request none whole pre) (hret : 0 ≤ ret)
    (hn : replySize request = nfpFirmwareMax) (hfirmware : request = nfpIoctlFirmwareLast)
    (h : play moves (Shim.readFirmware none ret) = some (rec, .ret a)) :
    IoctlContained request none (pre.append rec) a ↔ ReplySafe request none whole moves := by
  obtain ⟨r, rest, rec, rfl, hle, hend, rfl⟩ := play_read h
  cases r with
  | none =>
    -- -1 is not below 4
    obtain ⟨rfl, rfl, rfl⟩ := play_answer hend
    rw [hpre.speaks_iff rfl (Nat.zero_le _) (.inl hret)]
    refine iff_of_false ?_ ?_
    · rintro ⟨-, hlen⟩
      rw [hn] at hlen
      cases hlen
    · exact fun hsafe => hsafe.2 hfirmware
  | some bytes =>
    -- there is no room for a byte, and 0 is below 4
    have hshort : bytes.length < 4 := (hle bytes rfl).trans_lt (by decide)
    rw [if_pos (by rw [Option.map_some, isShort_some]; exact decide_eq_true hshort)] at hend
    obtain ⟨rfl, rfl, rfl⟩ := play_answer hend
    exact iff_of_true (hpre.refused rfl rfl) (.inl rfl)

/-- A name that is cut short is stored, though the call returns -1. -/
theorem Asked.short_iff {bytes : List UInt8} {mem : Mem} (hpre : Asked request (some mem) whole pre)
    (hn : replySize request = nfpFirmwareMax) (hfirmware : request = nfpIoctlFirmwareLast)
    (hshort : bytes.length < 4) (hret : a.ret = -1) (hsent : rec.sent = [])
    (hheard : rec.heard = bytes) (hops : rec.ops = [bytes]) :
    IoctlContained request (some mem) (pre.append rec) a ↔
      ReplySafe request (some mem) whole [.got (some bytes)] := by
  have hleast : leastReply request = 4 := if_pos hfirmware
  have hcut : bytes.length ≠ replySize request := by
    rw [hn]
    exact (hshort.trans (by decide)).ne
  rw [ReplySafe, or_iff_right (Option.some_ne_none mem), hleast]
  by_cases hnil : bytes = []
  · -- nothing came, and nothing is stored
    refine iff_of_true ?_ (.inl ⟨hshort, fun _ => hnil⟩)
    rintro (hnonneg | hstored)
    · rw [hret] at hnonneg
      exact absurd hnonneg (by decide)
    · refine absurd ?_ hstored
      rw [Record.append, hpre.no_ops, hops, hnil]
      rfl
  · have hspeaks : 0 ≤ a.ret ∨ rec.ops.flatten ≠ [] := by
      rw [hops, List.flatten_singleton]
      exact .inr hnil
    have hle : rec.heard.length ≤ replySize request := by
      rw [hheard, hn]
      exact hshort.le.trans (by decide)
    rw [hpre.speaks_iff hsent hle hspeaks, hheard]
    refine iff_of_false (fun hwhole => hcut hwhole.2) ?_
    rintro (⟨-, hstored⟩ | ⟨-, hwhole⟩)
    · exact hnil (hstored hfirmware)
    · exact hcut hwhole

/-- The name goes to `argp` before its length is looked at. -/
theorem readFirmware_contained_iff (hpre : Asked request argp whole pre) (hret : 0 ≤ ret)
    (hn : replySize request = nfpFirmwareMax) (hfirmware : request = nfpIoctlFirmwareLast)
    (h : play moves (Shim.readFirmware argp ret) = some (rec, .ret a)) :
    IoctlContained request argp (pre.append rec) a ↔ ReplySafe request argp whole moves := by
  cases argp with
  | none => exact readFirmware_null_contained_iff hpre hret hn hfirmware h
  | some mem =>
    obtain ⟨r, rest, rec, rfl, hle, hstore, rfl⟩ := play_read h
    obtain ⟨rest, rec, rfl, hend, rfl⟩ := play_perform hstore
    cases r with
    | none =>
      -- -1 is not below 4, and the call returns the status
      obtain ⟨rfl, rfl, rfl⟩ := play_answer hend
      rw [hpre.speaks_iff rfl (Nat.zero_le _) (.inl hret)]
      refine iff_of_false ?_ ?_
      · rintro ⟨-, hlen⟩
        rw [hn] at hlen
        cases hlen
      · rintro ⟨hnull, -⟩
        cases hnull
    | some bytes =>
      have hheard : bytes ++ [] = bytes := List.append_nil bytes
      by_cases hshort : bytes.length < 4
      · rw [if_pos (by rw [Option.map_some, isShort_some]; exact decide_eq_true hshort)] at hend
        obtain ⟨rfl, rfl, rfl⟩ := play_answer hend
        exact hpre.short_iff hn hfirmware hshort rfl rfl hheard rfl
      · rw [if_neg (by rw [Option.map_some, isShort_some, decide_eq_true_eq]; exact hshort)] at hend
        obtain ⟨rfl, rfl, rfl⟩ := play_answer hend
        have hle' : (bytes ++ []).length ≤ replySize request := by
          rw [hheard, hn]
          exact hle bytes rfl
        rw [hpre.speaks_iff rfl hle' (.inl hret), ReplySafe,
          or_iff_right (Option.some_ne_none mem)]
        show whole ∧ (bytes ++ []).length = _ ↔ _
        rw [hheard, or_iff_right]
        rintro ⟨hlt, -⟩
        rw [leastReply, if_pos hfirmware] at hlt
        exact hshort hlt

/-- After a status that is not negative. -/
theorem reply_contained_iff (hpre : Asked request argp whole pre) (htemp : ¬asInt temp < 0)
    (h : play moves (Shim.replyCalls stack request argp temp) = some (rec, .ret a)) :
    IoctlContained request argp (pre.append rec) a ↔ ReplySafe request argp whole moves := by
  have hret : 0 ≤ (asInt temp).toInt := by
    rw [Int32.lt_iff_toInt_lt, not_lt] at htemp
    exact htemp
  simp only [Shim.replyCalls] at h
  -- one case for each kind of reply, in the order of the second `switch`
  split at h
  next hident =>
    refine readStruct_contained_iff hpre hret (if_pos hident) ?_ le_rfl h
    rw [hident]
    decide
  next hident =>
    split at h
    next hfirmware =>
      refine readFirmware_contained_iff hpre hret ?_ hfirmware h
      rw [hfirmware]
      rfl
    next hfirmware =>
      have hsize : replySize request =
          if request = nfpIoctlCppAreaRequest then areaRequestSize
          else if request = nfpIoctlCppExplRequest then explicitRequestSize else 0 := by
        rw [replySize, if_neg hident, if_neg hfirmware]
      split at h
      next harea =>
        rw [if_pos harea] at hsize
        exact readStruct_contained_iff hpre hret hsize hfirmware (by decide) h
      next harea =>
        rw [if_neg harea] at hsize
        split at h
        next hexpl =>
          rw [if_pos hexpl] at hsize
          exact readStruct_contained_iff hpre hret hsize hfirmware (by decide) h
        next hexpl =>
          rw [if_neg hexpl] at hsize
          -- the status is the whole reply
          obtain ⟨rfl, rfl, rfl⟩ := play_answer h
          rw [hpre.speaks_iff rfl (Nat.zero_le _) (.inl hret), ReplySafe]
          · exact and_congr_right fun _ => eq_comm
          · intro rest hrest
            cases hrest
          · intro bytes rest hrest
            cases hrest

/-- What has gone through the socket when the status comes: `whole` says that it was the whole
request. -/
structure Requested (request : UInt64) (argp : Option Mem) (whole : Prop)
    (pre : Record (List UInt8)) : Prop where
  whole_iff : whole ↔ ioctlRequest request argp = some pre.sent
  no_heard : pre.heard = []
  no_ops : pre.ops = []

/-- At the status. -/
theorem status_contained_iff (hpre : Requested request argp whole pre)
    (h : play moves (Shim.readStatus request argp fun temp =>
      if asInt temp < 0 then .ret (Shim.failedResult (asInt temp) argp)
      else Shim.replyCalls stack request argp temp) = some (rec, .ret a)) :
    IoctlContained request argp (pre.append rec) a ↔ StatusSafe request argp whole moves := by
  -- nothing is stored before the status comes
  have hquiet : ∀ {rec : Record (List UInt8)}, rec.ops = [] → (pre.append rec).ops = [] := by
    intro rec hops
    rw [Record.append, hpre.no_ops, hops]
    rfl
  obtain ⟨st, rest, rfl, ⟨hshort, rfl, rfl, out, rfl⟩ | ⟨hlong, hst, rec, hreply, rfl⟩⟩ :=
    play_readStatus h
  · exact iff_of_true (ioctlContained_refused rfl (hquiet rfl)) (.inl hshort)
  by_cases hneg : asInt (statusOf request st) < 0
  · rw [if_pos hneg] at hreply
    obtain ⟨rfl, rfl, rfl⟩ := play_answer hreply
    exact iff_of_true (ioctlContained_refused rfl (hquiet rfl)) (.inr (.inl hneg))
  rw [if_neg hneg] at hreply
  rw [StatusSafe, hlong, or_iff_right Bool.false_ne_true, or_iff_right hneg, ← Record.append_assoc]
  refine reply_contained_iff ⟨?_, ?_, ?_⟩ hneg hreply
  · -- the status was received when its call did not fail
    show _ ↔ ioctlRequest request argp = some (pre.sent ++ []) ∧
      (pre.heard ++ received st).length = 8
    rw [List.append_nil, hpre.no_heard, ← hpre.whole_iff]
    refine and_congr_right fun _ => ⟨fun hne => hst.resolve_left hne, ?_⟩
    rintro hlen rfl
    cases hlen
  · show (pre.heard ++ received st).length ≤ 8
    rw [hpre.no_heard]
    rcases hst with rfl | hlen
    · exact Nat.zero_le 8
    · exact hlen.le
  · exact hquiet rfl

/-- The two words of a request are whole when no call has failed, whatever follows them. -/
theorem request_append_iff {word word' : UInt64} {r₁ r₂ : Option ℕ} {x y : List UInt8}
    (h₁ : r₁ = none ∨ r₁ = some 8) (h₂ : r₂ = none ∨ r₂ = some 8) (hle : x.length ≤ y.length) :
    u64Bytes word ++ (u64Bytes word' ++ y) =
      taken (u64Bytes word) r₁ ++ (taken (u64Bytes word') r₂ ++ x) ↔
    (r₁ ≠ none ∧ r₂ ≠ none) ∧ x = y := by
  rw [eq_comm, word_append_iff h₁ (length_word_append_le hle), word_append_iff h₂ hle, and_assoc]

/-- An argument is not empty, so that a call that failed has left it out. -/
theorem taken_load_iff {mem : Mem} {r : Option ℕ} {size : ℕ} (hpos : 0 < size)
    (hr : r = none ∨ r = some size) :
    taken (mem.load 0 size) r = mem.load 0 size ↔ r ≠ none := by
  have hlen : (mem.load 0 size).length = size := Mem.length_load mem 0 size
  have hne : mem.load 0 size ≠ [] := by
    rw [← List.length_pos_iff_ne_nil, hlen]
    exact hpos
  have hiff := taken_append_iff hne (r := r) (x := []) (y := []) (by rwa [hlen]) le_rfl
  rw [List.append_nil, List.append_nil] at hiff
  exact hiff.trans (and_iff_left rfl)

/-- The words that have gone out when the argument comes. -/
theorem arg_contained_iff {r₁ r₂ : Option ℕ} {size : ℕ} (hsize : Shim.argSize request = some size)
    (h₁ : r₁ = none ∨ r₁ = some 8) (h₂ : r₂ = none ∨ r₂ = some 8)
    (h : play moves (Shim.sendArg argp size <| Shim.readStatus request argp fun temp =>
      if asInt temp < 0 then .ret (Shim.failedResult (asInt temp) argp)
      else Shim.replyCalls stack request argp temp) = some (rec, .ret a)) :
    IoctlContained request argp ((Record.ofSent (taken (u64Bytes opIoctl) r₁ ++
        taken (u64Bytes request) r₂)).append rec) a ↔
      ArgSafe request argp size (r₁ ≠ none ∧ r₂ ≠ none) moves := by
  -- nothing may follow the words
  have hbare : u64Bytes opIoctl ++ (u64Bytes request ++ []) =
        taken (u64Bytes opIoctl) r₁ ++ taken (u64Bytes request) r₂ ↔ r₁ ≠ none ∧ r₂ ≠ none := by
    have hnil := @request_append_iff opIoctl request r₁ r₂ [] [] h₁ h₂ le_rfl
    rw [List.append_nil (taken (u64Bytes request) r₂)] at hnil
    exact hnil.trans (and_iff_left rfl)
  cases argp with
  | none =>
    refine status_contained_iff ⟨?_, rfl, rfl⟩ h
    simp only [ioctlRequest, hsize]
    split
    next hzero =>
      rw [Option.some_inj]
      exact (and_iff_left hzero).trans hbare.symm
    -- there is an argument to send, but nothing to read it from: the request is never whole
    next hne => exact iff_of_false (fun hwhole => hne hwhole.2) nofun
  | some mem =>
    simp only [ArgSafe]
    rw [Shim.sendArg] at h
    split at h
    next hpos =>
      obtain ⟨r, rest, rec, rfl, hle, hstatus, rfl⟩ := play_write h
      rw [Mem.length_load] at hle
      rw [if_pos hpos]
      dsimp only
      by_cases hshort : isShort r size = true
      · rw [if_pos hshort] at hstatus
        obtain ⟨rfl, rfl, rfl⟩ := play_answer hstatus
        exact iff_of_true (ioctlContained_refused rfl rfl) (.inl hshort)
      rw [if_neg hshort] at hstatus
      rw [or_iff_right hshort, ← Record.append_assoc]
      refine status_contained_iff ⟨?_, rfl, rfl⟩ hstatus
      have hr := isShort_eq_false hle (Bool.eq_false_iff.mpr hshort)
      simp only [ioctlRequest, hsize, Option.some_inj]
      show _ ↔ _ = (taken (u64Bytes opIoctl) r₁ ++ taken (u64Bytes request) r₂) ++
        taken (mem.load 0 size) r
      rw [List.append_assoc, request_append_iff h₁ h₂ (length_taken_le _ r),
        taken_load_iff hpos hr]
    next hzero =>
      rw [if_neg hzero]
      refine status_contained_iff ⟨?_, rfl, rfl⟩ h
      obtain rfl : size = 0 := by omega
      simp only [ioctlRequest, hsize, Option.some_inj]
      exact hbare.symm

/-- **An `ioctl`.** -/
theorem ioctl_contained_iff
    (h : play moves (Shim.ioctlCalls stack request argp) = some (rec, .ret a)) :
    IoctlContained request argp rec a ↔ IoctlSafe request argp moves := by
  obtain ⟨r₁, rest, rfl, ⟨hshort, rfl, rfl, out, rfl⟩ | ⟨hlong, h₁, rec, hrequest, rfl⟩⟩ :=
    play_sendWord h
  · exact iff_of_true (ioctlContained_refused rfl rfl) (.inl hshort)
  unfold IoctlSafe
  dsimp only
  rw [hlong, or_iff_right Bool.false_ne_true]
  by_cases hnull : request = nfpIoctlCppIdentification ∧ argp.isNone
  · -- the size of the struct, before anything but the operation is sent
    rw [if_pos hnull] at hrequest
    obtain ⟨rfl, rfl, rfl⟩ := play_answer hrequest
    refine iff_of_false (fun hcontained => ?_) fun hsafe => hsafe.1 hnull
    obtain ⟨rfl, hnone⟩ := hnull
    obtain rfl := Option.isNone_iff_eq_none.mp hnone
    obtain ⟨hreq, -⟩ := hcontained (.inl (Int.natCast_nonneg identificationSize))
    cases hreq
  rw [if_neg hnull] at hrequest
  rw [and_iff_right hnull]
  cases hsize : Shim.argSize request with
  | none =>
    -- `default: errno = EINVAL; return -1`
    rw [hsize] at hrequest
    obtain ⟨rfl, rfl, rfl⟩ := play_answer hrequest
    exact iff_of_true (ioctlContained_refused rfl rfl) trivial
  | some size =>
    rw [hsize] at hrequest
    obtain ⟨r₂, rest, rfl, ⟨hshort, rfl, rfl, out, rfl⟩ | ⟨hlong, h₂, rec, harg, rfl⟩⟩ :=
      play_sendWord hrequest
    · exact iff_of_true (ioctlContained_refused rfl rfl) (.inl hshort)
    -- the argument, with the two words that went before it
    dsimp only
    rw [hlong, or_iff_right Bool.false_ne_true, ← Record.append_assoc, Record.ofSent_append]
    exact arg_contained_iff hsize h₁ h₂ harg

end Ioctl

/-! ### Every call -/

/-- **A call keeps to it with the answers of `ShimCall.Safe`, and with no others.** -/
theorem contained_iff (stack : Mem) (call : ShimCall) (moves : List Move)
    (rec : Record (List UInt8)) (a : ShimResult)
    (h : play moves (call.calls stack) = some (rec, .ret a)) :
    call.Contained rec a ↔ call.Safe moves := by
  cases call with
  | pread buf count offset => exact pread_contained_iff h
  | pread64 buf count offset => exact pread_contained_iff h
  | pwrite buf count offset => exact pwrite_contained_iff h
  | pwrite64 buf count offset => exact pwrite_contained_iff h
  | ioctl request argp => exact ioctl_contained_iff h

/-- A read of 2 bytes that is answered with 2. -/
def twoBytes : List Move :=
  [.wrote (some 8), .wrote (some 8), .wrote (some 8), .got (some (u64Bytes 2)), .got (some [7, 9])]

/-- Its two bytes are stored, and 2 is returned. -/
theorem contained_iff_two_bytes :
    (ShimCall.pread (fun _ => 0) 2 0).Contained
        ⟨preadRequest 2 0, u64Bytes 2, [7, 9], []⟩
        ⟨2, none, false, some (Mem.store (fun _ => 0) 0 [7, 9])⟩ ↔
      (ShimCall.pread (fun _ => 0) 2 0).Safe twoBytes :=
  contained_iff (fun _ => 0) (.pread (fun _ => 0) 2 0) twoBytes _ _ rfl

/-- The 16 bytes that a read of 4 is answered with are all stored. -/
theorem long_reply_overruns : ¬∀ (stack : Mem) (call : ShimCall) (moves : List Move)
    (rec : Record (List UInt8)) (a : ShimResult),
    play moves (call.calls stack) = some (rec, .ret a) → call.Contained rec a := by
  intro hall
  have hcontained := hall (fun _ => 0) (.pread (fun _ => 0) 4 0)
    [.wrote (some 8), .wrote (some 8), .wrote (some 8), .got (some (u64Bytes 16)),
      .got (some (List.replicate 16 1))] _ _ rfl
  have hle : 16 ≤ 4 := hcontained.inBounds
  exact absurd hle (by decide)

end NfpUdpEcho
