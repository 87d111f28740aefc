import Mathlib.Data.List.ReduceOption
import NfpUdpEcho.NfpCore.NspRuns

/-!
# Commands and the service processor

One call leaves its command in one `Stage` at most, and the bits it waits for tell the stage
(`ensures_nspCommand`). So a session carries out every command once, in order, and with its own
buffer (`nspSession_served`), unless a call has given up. The check at the start of a command looks
at the BUSY bit alone: a command that has been given up may still wait, and it is carried out with
the buffer of the next (`nspCommand_overtaken`).

`Ensures` walks a program access by access, with what holds of the NSP after each answer. An idle
NSP cannot move (`NspUnit.Idle.not_step`), so up to the write of the command every access finds it
as the last one left it. From then on the NSP takes its steps at any time, and `Stage` is what
survives them: the command waits, is carried out, or has been. Each of the two loops waits for one
of these transitions, and a loop that gives up leaves the stage open. A session adds the calls up:
as long as every call has settled the NSP is idle again, and the first that has not is the last.
-/

namespace NfpUdpEcho

open Access BitField ByteMem Errno

variable {res : NfpResource} {r : NspRequest} {m : NspMemory} {l : List NspServed}
  {s s' : NspUnit}

/-! ### One call -/

/-- The host waits for a register. -/
theorem ensures_nspWaitReg {I : NspUnit → Prop} {Q : UInt64 → NspUnit → Prop} {cppId : UInt32}
    {a mask val : UInt64}
    (hround : ∀ {s x s'}, I s → nspDevice res (.readq cppId a) s x s' →
      I s' ∧ ∀ reg, x = .ok reg → reg &&& mask = val → Q reg s') (n : ℕ) (h : I s) :
    Ensures (nspDevice res) s (nfpNspWaitReg cppId a mask val n) fun reg s' =>
      I s' ∧ (∀ w, reg = .ok w → Q w s') ∧
        ∀ err, reg = .error err → err = -1 ∨ err = -ETIMEDOUT := by
  have hnext {next : CppProg (Except ℤ UInt64)} {s : NspUnit} (h : I s)
      (hn : ∀ {s}, I s → Ensures (nspDevice res) s next fun reg s' => I s' ∧
        (∀ w, reg = .ok w → Q w s') ∧ ∀ err, reg = .error err → err = -1 ∨ err = -ETIMEDOUT) :
      Ensures (nspDevice res) s (nspWaitRound cppId a mask val next) fun reg s' => I s' ∧
        (∀ w, reg = .ok w → Q w s') ∧ ∀ err, reg = .error err → err = -1 ∨ err = -ETIMEDOUT := by
    refine .access fun x s' hx => ?_
    obtain ⟨hI, hQ⟩ := hround h hx
    change Except ℤ UInt64 at x
    cases x with
    | error err =>
      refine .ret ⟨hI, nofun, fun err he => .inl ?_⟩
      exact (Except.error.inj he).symm
    | ok reg =>
      dsimp only
      split
      next hreg =>
        refine .ret ⟨hI, fun w hw => ?_, nofun⟩
        obtain rfl := Except.ok.inj hw
        exact hQ _ rfl hreg
      next => exact hn hI
  -- the rounds share the invariant, and the last gives up
  induction n generalizing s with
  | zero =>
    refine hnext h fun hI => .ret ⟨hI, nofun, fun err he => .inr ?_⟩
    exact (Except.error.inj he).symm
  | succ n ih => exact hnext h fun hI => ih hI

/-- The host waits for the end of a command, and what it returns is the answer to this command
unless it gives up. -/
theorem ensures_nspAwait (nsp : NfpNsp) (h : Stage r m l s) :
    Ensures (nspDevice nsp.res) s (nspAwait nsp) fun ret s' => Stage r m l s' ∧
      ((∃ e, LastServed r m l e s' ∧ ret = e.ret) ∨ ret = -1 ∨ ret = -ETIMEDOUT) := by
  -- when START is 0 the command has been taken
  refine .bind (ensures_nspWaitReg (I := Stage r m l)
    (Q := fun _ s' => Stage r m l s' ∧ s'.pending = none) ?_ nspWaitRounds h) ?_
  · rintro s x s' h ⟨s₁, hs, rfl, hreg⟩
    refine ⟨h.steps hs, fun reg hx hstart => ⟨h.steps hs, ?_⟩⟩
    exact ((hreg reg hx rfl).2 rfl).1.mp hstart
  · rintro (err | reg) s' ⟨h, hok, herr⟩
    · exact .ret ⟨h, .inr (herr err rfl)⟩
    -- and when BUSY is 0 after that, it has been carried out
    refine .bind (ensures_nspWaitReg (I := fun s => Stage r m l s ∧ s.pending = none)
      (Q := fun reg s' => ∃ e, LastServed r m l e s' ∧
        fieldGet nspStatusResult reg = e.result.toUInt64) ?_ nspWaitRounds (hok reg rfl)) ?_
    · rintro s x s' ⟨h, hp⟩ ⟨s₁, hs, rfl, hreg⟩
      have h' := h.steps hs
      have hp' := pending_of_steps hp hs
      refine ⟨⟨h', hp'⟩, fun reg hx hbusy => ?_⟩
      obtain ⟨hrunning, hresult⟩ := (hreg reg hx rfl).1 rfl
      have hr := hrunning.mp hbusy
      obtain ⟨e, he⟩ := h'.exists_last hp' hr
      exact ⟨e, he, he.result ▸ hresult hr⟩
    · rintro (err | reg) s' ⟨⟨h, -⟩, hok, herr⟩
      · exact .ret ⟨h, .inr (herr err rfl)⟩
      obtain ⟨e, he, hresult⟩ := hok reg rfl
      -- the NSP is idle, so the value that is read last is of the same command
      refine .access fun x s'' hx => ?_
      obtain ⟨rfl, hreg⟩ := he.idle.access hx
      change Except ℤ UInt64 at x
      cases x with
      | error err => exact .ret ⟨h, .inr (.inl rfl)⟩
      | ok w =>
        have hvalue := ((hreg w rfl rfl).2 rfl).2 he.idle.pending he.idle.running
        dsimp only
        rw [hresult, hvalue, ← he.value, e.result_ret]
        exact .ret ⟨h, .inl ⟨e, he, rfl⟩⟩

/-- The check before a command leaves an idle NSP alone. -/
theorem ensures_nspCheck (nsp : NfpNsp) (hidle : s.Idle) :
    Ensures (nspDevice nsp.res) s (nfpNspCheck nsp) fun q s' =>
      s' = s ∧ q.2.res = nsp.res ∧ q.1 ≤ 0 := by
  have hneg : -1 ≤ (0 : ℤ) ∧ -ENODEV ≤ 0 ∧ -EINVAL ≤ 0 ∧ -EBUSY ≤ 0 := by decide
  refine .access fun x s' hx => ?_
  obtain ⟨rfl, -⟩ := hidle.access hx
  change Except ℤ UInt64 at x
  cases x with
  | error err => exact .ret ⟨rfl, rfl, hneg.1⟩
  | ok reg =>
    dsimp only
    -- no magic number, another major version, a busy NSP, or none of these
    split_ifs
    · exact .ret ⟨rfl, rfl, hneg.2.1⟩
    · exact .ret ⟨rfl, rfl, hneg.2.2.1⟩
    · exact .ret ⟨rfl, rfl, hneg.2.2.2⟩
    · exact .ret ⟨rfl, rfl, le_rfl⟩

/-- **One command**, given to an idle NSP. It is refused, or it is in one stage with its own buffer
and what it returns is the answer to it, unless the host has given up. -/
theorem ensures_nspCommand (nsp : NfpNsp) (code : UInt16) (option buffCpp : UInt32)
    (buffAddr : UInt64) (hidle : s.Idle) :
    Ensures (nspDevice nsp.res) s (nfpNspCommand nsp code option buffCpp buffAddr) fun q s' =>
      (s'.Idle ∧ s'.mem = s.mem ∧ s'.served = s.served ∧ q.1 < 0) ∨
        Stage ⟨code, option, buffCpp >>> 8, buffAddr⟩ s.mem s.served s' ∧
          ((∃ e, LastServed ⟨code, option, buffCpp >>> 8, buffAddr⟩ s.mem s.served e s' ∧
            q.1 = e.ret) ∨ q.1 = -1 ∨ q.1 = -ETIMEDOUT) := by
  have hneg : (-1 : ℤ) < 0 ∧ -EINVAL < 0 := by decide
  refine .bind (ensures_nspCheck nsp hidle) ?_
  rintro ⟨err, res, major, minor⟩ s' ⟨rfl, hres, herr⟩
  obtain rfl : res = nsp.res := hres
  dsimp only at herr ⊢
  -- a check that fails and a buffer out of reach leave the registers alone
  split_ifs with h0 hfit
  · exact .ret (.inl ⟨hidle, rfl, rfl, lt_of_le_of_ne herr h0⟩)
  · exact .ret (.inl ⟨hidle, rfl, rfl, hneg.2⟩)
  refine .access fun x s₁ hx => ?_
  obtain ⟨err, rfl, rfl⟩ | ⟨rfl, hs₁⟩ := hidle.access hx
  · exact .ret (.inl ⟨hidle, rfl, rfl, hneg.1⟩)
  obtain rfl := (hs₁ rfl).1 rfl
  -- the buffer register may be written while nothing waits
  have hidle₁ : ({ s' with buffer := nspBufferWord buffCpp buffAddr } : NspUnit).Idle :=
    ⟨hidle.pending, hidle.running⟩
  refine .access fun x s₂ hx => ?_
  obtain ⟨err, rfl, rfl⟩ | ⟨rfl, hs₂⟩ := hidle₁.access hx
  · exact .ret (.inl ⟨hidle₁, rfl, rfl, hneg.1⟩)
  obtain rfl := (hs₂ rfl).2 rfl nspCommandWord_start
  -- now the command waits
  have hfit' : fieldFit nspBufferAddress buffAddr = true := by
    by_contra hne
    exact hfit (.inr (Bool.eq_false_of_not_eq_true hne))
  have hstage : Stage ⟨code, option, buffCpp >>> 8, buffAddr⟩ s'.mem s'.served
      { s' with
        buffer := nspBufferWord buffCpp buffAddr
        pending := some (nspCommandWord code option) } :=
    .pending _ rfl hidle.running (NspRequest.ofWords_words hfit') rfl rfl
  refine .bind (ensures_nspAwait ⟨nsp.res, major, minor⟩ hstage) fun ret s₃ hret => ?_
  exact .ret (.inr hret)

/-! ### Commands with buffers -/

/-- What a caller asks of the NSP. -/
inductive NspCall where
  | command (code : UInt16) (option buffCpp : UInt32) (buffAddr : UInt64)
  | commandBuf (code : UInt16) (option : UInt32) (inBuf : List UInt8) (outSize : ℕ)

namespace NspCall

/-- The program of a call. -/
def prog (nsp : NfpNsp) : NspCall → CppProg (ℤ × NfpNsp × List UInt8)
  | command code option buffCpp buffAddr =>
    (nfpNspCommand nsp code option buffCpp buffAddr).bind fun (ret, nsp) => .ret (ret, nsp, [])
  | commandBuf code option inBuf outSize => nfpNspCommandBuf nsp code option inBuf outSize

/-- The command that is given for a call. When it is given, a buffer holds the bytes of the caller
and zeros behind them. -/
def Asks : NspCall → NspRequest → NspMemory → Prop
  | command code option buffCpp buffAddr, r, _ => r = ⟨code, option, buffCpp >>> 8, buffAddr⟩
  | commandBuf code option inBuf outSize, r, m => r.code = code ∧ r.option = option ∧
      (m r.buffCpp).load r.buffAddr.toNat (max inBuf.length outSize) =
        inBuf ++ List.replicate (outSize - inBuf.length) 0

/-- The bytes that a caller gets. -/
def gets (e : NspServed) : NspCall → List UInt8
  | command _ _ _ _ => []
  | commandBuf _ _ _ outSize =>
    (e.output e.request.buffCpp).load e.request.buffAddr.toNat outSize

/-- After a call that was made of an idle NSP. -/
inductive After (call : NspCall) (s : NspUnit) (ret : ℤ) (out : List UInt8) (s' : NspUnit) :
    Prop where
  | refused : s'.Idle → s'.served = s.served → ret < 0 → After call s ret out s'
  | served (e : NspServed) : s'.Idle → s'.served = s.served ++ [e] →
      call.Asks e.request e.input → (0 ≤ ret → ret = e.ret ∧ out = call.gets e) →
      After call s ret out s'
  | lost {r : NspRequest} {m : NspMemory} : Stage r m s.served s' → call.Asks r m →
      ret = -1 ∨ ret = -ETIMEDOUT → After call s ret out s'

end NspCall

/-- What a call returns when the host gives up is negative. -/
theorem lost_neg {n : ℤ} (h : n = -1 ∨ n = -ETIMEDOUT) : n < 0 := by
  obtain rfl | rfl := h <;> decide

section Buffers

variable (nsp : NfpNsp) (code : UInt16) (option cppId : UInt32) (cppBuf : UInt64)
  (inBuf : List UInt8) (outSize : ℕ) {s₀ : NspUnit} (hidle : s.Idle)
  (hserved : s.served = s₀.served)

include hidle hserved

/-- The buffer is ready. -/
theorem ensures_nspCommandOut
    (hm : (s.mem (cppId >>> 8)).load cppBuf.toNat (max inBuf.length outSize) =
      inBuf ++ List.replicate (outSize - inBuf.length) 0) :
    Ensures (nspDevice nsp.res) s (nspCommandOut nsp code option cppId cppBuf outSize)
      fun q s' => NspCall.After (.commandBuf code option inBuf outSize) s₀ q.1 q.2.2 s' := by
  refine .bind (ensures_nspCommand nsp code option cppId cppBuf hidle) ?_
  rintro ⟨ret, nsp'⟩ s' (⟨hidle', -, hserved', hret⟩ | ⟨hstage, ⟨e, he, hret⟩ | hret⟩)
  · dsimp only at hret ⊢
    rw [if_pos hret]
    exact .ret (.refused hidle' (hserved'.trans hserved) hret)
  · -- the NSP has carried it out, and the host reads its answer
    have hasks : (NspCall.commandBuf code option inBuf outSize).Asks e.request e.input := by
      rw [he.request, he.input]
      exact ⟨rfl, rfl, hm⟩
    have hserved' : s'.served = s₀.served ++ [e] := hserved ▸ he.served
    dsimp only at hret ⊢
    split_ifs with hneg hout
    · exact .ret (.served e he.idle hserved' hasks fun h0 => absurd hneg (not_lt.mpr h0))
    · refine .access fun x s'' hx => ?_
      obtain ⟨rfl, ⟨err, herr, rfl⟩ | rfl⟩ := he.idle.access hx
      · exact .ret (.served e he.idle hserved' hasks fun h0 => absurd herr (not_lt.mpr h0))
      · refine .ret (.served e he.idle hserved' hasks fun _ => ⟨hret, ?_⟩)
        dsimp only [NspCall.gets]
        rw [he.output, he.request]
        exact Mem.ofFn_eq_load _ _ _
    · refine .ret (.served e he.idle hserved' hasks fun _ => ⟨hret, ?_⟩)
      rw [NspCall.gets, not_not.mp hout]
      rfl
  · dsimp only at hret ⊢
    rw [if_pos (lost_neg hret)]
    exact .ret (.lost (hserved ▸ hstage) ⟨rfl, rfl, hm⟩ hret)

/-- The buffer holds the bytes of the caller. -/
theorem ensures_nspClearBuf (hbuf : cppBuf.toNat < 2 ^ 38) (hlen : inBuf.length < 2 ^ 32)
    (hm : (s.mem (cppId >>> 8)).load cppBuf.toNat inBuf.length = inBuf) :
    Ensures (nspDevice nsp.res) s
      (nspClearBuf nsp code option cppId cppBuf inBuf.length outSize)
      fun q s' => NspCall.After (.commandBuf code option inBuf outSize) s₀ q.1 q.2.2 s' := by
  unfold nspClearBuf
  split_ifs with hlt
  · refine .access fun x s₁ hx => ?_
    obtain ⟨err, m, herr, rfl, rfl⟩ | ⟨rfl, rfl⟩ := hidle.access hx
    · exact .ret (.refused ⟨hidle.pending, hidle.running⟩ hserved herr)
    refine ensures_nspCommandOut nsp code option cppId cppBuf inBuf outSize
      ⟨hidle.pending, hidle.running⟩ hserved ?_
    have hplace : (cppBuf + inBuf.length.toUInt64).toNat = cppBuf.toNat + inBuf.length := by
      have hsize : inBuf.length.toUInt64.toNat = inBuf.length :=
        UInt64.toNat_ofNat_of_lt' (hlen.trans (by decide))
      rw [UInt64.toNat_add, hsize]
      omega
    -- the zeros come right behind the bytes of the caller
    have hzeros := Mem.load_store_behind (s.mem (cppId >>> 8)) cppBuf.toNat inBuf.length
      (List.replicate (outSize - inBuf.length) 0)
    rw [List.length_replicate, Nat.add_sub_cancel' hlt.le, hm] at hzeros
    dsimp only
    rw [Function.update_self, hplace, max_eq_right hlt.le, hzeros]
  · refine ensures_nspCommandOut nsp code option cppId cppBuf inBuf outSize hidle hserved ?_
    have hle := Nat.le_of_not_lt hlt
    rw [max_eq_left hle, Nat.sub_eq_zero_of_le hle, List.replicate_zero, List.append_nil, hm]

end Buffers

/-- **One command with a buffer**, given to an idle NSP. -/
theorem ensures_nspCommandBuf (nsp : NfpNsp) (code : UInt16) (option : UInt32)
    (inBuf : List UInt8) (outSize : ℕ) (hidle : s.Idle) :
    Ensures (nspDevice nsp.res) s (nfpNspCommandBuf nsp code option inBuf outSize)
      fun q s' => NspCall.After (.commandBuf code option inBuf outSize) s q.1 q.2.2 s' := by
  have hneg : -EOPNOTSUPP < 0 ∧ (-1 : ℤ) < 0 ∧ -EINVAL < 0 := by decide
  unfold nfpNspCommandBuf
  by_cases hminor : nsp.minor < 13
  · rw [if_pos hminor]
    exact .ret (.refused hidle rfl hneg.1)
  rw [if_neg hminor]
  refine .access fun x s' hx => ?_
  obtain ⟨rfl, -⟩ := hidle.access hx
  change Except ℤ UInt64 at x
  cases x with
  | error err => exact .ret (.refused hidle rfl hneg.2.1)
  | ok config =>
  dsimp only
  by_cases hsize :
      (fieldGet nspDfltBufferSizeMb config * sz1M).toNat < max inBuf.length outSize
  · rw [if_pos hsize]
    exact .ret (.refused hidle rfl hneg.2.2)
  rw [if_neg hsize]
  refine .access fun x s'' hx => ?_
  obtain ⟨rfl, -⟩ := hidle.access hx
  change Except ℤ UInt64 at x
  cases x with
  | error err => exact .ret (.refused hidle rfl hneg.2.1)
  | ok reg =>
  have hbuf : (fieldGet nspBufferAddress reg).toNat < 2 ^ 38 := maskOf_buffAddr.fieldGet_lt
  -- what has been checked is a product of 64 bits, and less than the buffers can hold
  have hlen : inBuf.length < 2 ^ 32 := by
    have hmb : (fieldGet nspDfltBufferSizeMb config).toNat < 2 ^ 8 := maskOf_sizeMb.fieldGet_lt
    have hmega : sz1M.toNat = 2 ^ 20 := rfl
    rw [UInt64.toNat_mul, hmega] at hsize
    omega
  dsimp only
  split_ifs with hin
  · refine .access fun x s₁ hx => ?_
    obtain ⟨err, m, herr, rfl, rfl⟩ | ⟨rfl, rfl⟩ := hidle.access hx
    · exact .ret (.refused ⟨hidle.pending, hidle.running⟩ rfl herr)
    refine ensures_nspClearBuf nsp code option _ _ inBuf outSize
      ⟨hidle.pending, hidle.running⟩ rfl hbuf hlen ?_
    dsimp only
    rw [Function.update_self, Mem.load_store]
  · refine ensures_nspClearBuf nsp code option _ _ inBuf outSize hidle rfl hbuf hlen ?_
    rw [not_not.mp hin]
    rfl

/-! ### Sessions -/

/-- A call, and what it returned. -/
structure NspReturn where
  call : NspCall
  ret : ℤ
  out : List UInt8

/-- The host has not given up waiting. -/
def NspReturn.Settled (c : NspReturn) : Prop := c.ret ≠ -1 ∧ c.ret ≠ -ETIMEDOUT

/-- One call after the other of those that have the resource, and the NSP at any time. No call
follows one that has given up. -/
inductive NspSession (res : NfpResource) (s : NspUnit) : List NspReturn → NspUnit → Prop where
  | nil : NspSession res s [] s
  | step {calls : List NspReturn} {s' s'' : NspUnit} : NspSession res s calls s' →
      NspStep s' s'' → NspSession res s calls s''
  | call {calls : List NspReturn} {s' s'' : NspUnit} (c : NspReturn) {nsp nsp' : NfpNsp} :
      NspSession res s calls s' → (∀ c ∈ calls, c.Settled) → nsp.res = res →
      Runs (nspDevice res) (c.call.prog nsp) s' (c.ret, nsp', c.out) s'' →
      NspSession res s (calls ++ [c]) s''

/-- What became of a call: `none` is that the NSP has not carried it out. -/
def NspReturn.Became (c : NspReturn) : Option NspServed → Prop
  | none => c.ret < 0
  | some e => c.call.Asks e.request e.input ∧ (0 ≤ c.ret → c.ret = e.ret ∧ c.out = c.call.gets e)

/-- A session: every call has become something and the NSP is idle, or the last call has given up
and its command is in some stage. -/
inductive InSession (s : NspUnit) (calls : List NspReturn) (s' : NspUnit) : Prop where
  | settled {es : List (Option NspServed)} : List.Forall₂ NspReturn.Became calls es →
      s'.Idle → s'.served = s.served ++ es.reduceOption → InSession s calls s'
  | lost {calls₀ : List NspReturn} {es : List (Option NspServed)} {c : NspReturn}
      {r : NspRequest} {m : NspMemory} : calls = calls₀ ++ [c] →
      List.Forall₂ NspReturn.Became calls₀ es → Stage r m (s.served ++ es.reduceOption) s' →
      c.call.Asks r m → ¬c.Settled → c.ret < 0 → InSession s calls s'

/-- **One call**, made of an idle NSP. -/
theorem NspCall.ensures (call : NspCall) (nsp : NfpNsp) (hidle : s.Idle) :
    Ensures (nspDevice nsp.res) s (call.prog nsp) fun q s' => call.After s q.1 q.2.2 s' := by
  cases call with
  | command code option buffCpp buffAddr =>
    refine .bind (ensures_nspCommand nsp code option buffCpp buffAddr hidle) ?_
    rintro ⟨ret, nsp'⟩ s' (⟨hidle', -, hserved, hret⟩ | ⟨hstage, ⟨e, he, hret⟩ | hret⟩)
    · exact .ret (.refused hidle' hserved hret)
    · exact .ret (.served e he.idle he.served he.request fun _ => ⟨hret, rfl⟩)
    · exact .ret (.lost hstage rfl hret)
  | commandBuf code option inBuf outSize =>
    exact ensures_nspCommandBuf nsp code option inBuf outSize hidle

/-- A call that was not carried out adds nothing to the record. -/
theorem reduceOption_none (es : List (Option NspServed)) :
    (es ++ [none]).reduceOption = es.reduceOption := by
  rw [List.reduceOption_append, List.reduceOption_singleton, Option.toList_none, List.append_nil]

/-- One that was adds its command. -/
theorem reduceOption_some (es : List (Option NspServed)) (e : NspServed) :
    (es ++ [some e]).reduceOption = es.reduceOption ++ [e] := by
  rw [List.reduceOption_append, List.reduceOption_singleton, Option.toList_some]

namespace InSession

variable {calls : List NspReturn} {s₀ : NspUnit}

/-- A step that the NSP takes between two calls. -/
theorem step (h : InSession s₀ calls s) (hstep : NspStep s s') : InSession s₀ calls s' := by
  cases h with
  | settled _ hidle _ => exact absurd hstep hidle.not_step
  | lost hcalls hes hstage hasks hlost hret =>
    exact .lost hcalls hes (hstage.step hstep) hasks hlost hret

/-- One more call. -/
theorem call {nsp nsp' : NfpNsp} {c : NspReturn} (h : InSession s₀ calls s)
    (hsettled : ∀ c ∈ calls, c.Settled)
    (hrun : Runs (nspDevice nsp.res) (c.call.prog nsp) s (c.ret, nsp', c.out) s') :
    InSession s₀ (calls ++ [c]) s' := by
  cases h with
  | lost hcalls _ _ _ hlost _ =>
    exact absurd (hsettled _ (hcalls ▸ List.mem_append_right _ (List.mem_singleton_self _))) hlost
  | @settled es hes hidle hserved =>
    cases c.call.ensures nsp hidle _ _ hrun with
    -- nothing has happened
    | refused hidle' hserved' hret =>
      have hes' : List.Forall₂ NspReturn.Became (calls ++ [c]) (es ++ [none]) :=
        List.rel_append hes (.cons hret .nil)
      refine .settled hes' hidle' ?_
      rw [hserved', hserved, reduceOption_none]
    | served e hidle' hserved' hasks hret =>
      have hes' : List.Forall₂ NspReturn.Became (calls ++ [c]) (es ++ [some e]) :=
        List.rel_append hes (.cons ⟨hasks, hret⟩ .nil)
      refine .settled hes' hidle' ?_
      rw [hserved', hserved, reduceOption_some, List.append_assoc]
    -- the host has given up on this call
    | lost hstage hasks hret =>
      refine .lost rfl hes (hserved ▸ hstage) hasks (fun hsettled => ?_) (lost_neg hret)
      exact hret.elim hsettled.1 hsettled.2

/-- What has been carried out. -/
theorem served (h : InSession s₀ calls s) :
    ∃ es, List.Forall₂ NspReturn.Became calls es ∧ s.served = s₀.served ++ es.reduceOption := by
  cases h with
  | @settled es hes _ hserved => exact ⟨es, hes, hserved⟩
  | @lost calls₀ es c r m hcalls hes hstage hasks _ hret =>
    subst hcalls
    -- the last call has its command carried out, or not yet
    have hnone : List.Forall₂ NspReturn.Became (calls₀ ++ [c]) (es ++ [none]) :=
      List.rel_append hes (.cons hret .nil)
    cases hstage with
    | pending _ _ _ _ _ hl => exact ⟨_, hnone, hl.trans (by rw [reduceOption_none])⟩
    | running _ _ hl => exact ⟨_, hnone, hl.trans (by rw [reduceOption_none])⟩
    | served e he =>
      refine ⟨es ++ [some e], List.rel_append hes (.cons ⟨?_, fun h0 => ?_⟩ .nil), ?_⟩
      · rw [he.request, he.input]
        exact hasks
      · exact absurd hret (not_lt.mpr h0)
      · rw [he.served, reduceOption_some, List.append_assoc]

end InSession

/-- **Every command once, in order, with its own buffer.** -/
theorem nspSession_served {s₀ : NspUnit} {calls : List NspReturn} (hidle : s₀.Idle)
    (h : NspSession res s₀ calls s) : ∃ es, List.Forall₂ NspReturn.Became calls es ∧
      s.served = s₀.served ++ es.reduceOption := by
  have hsession : InSession s₀ calls s := by
    induction h with
    | nil => exact .settled .nil hidle (List.append_nil _).symm
    | step _ hstep ih => exact ih.step hstep
    | call c _ hsettled hres hrun ih =>
      subst hres
      exact ih.call hsettled hrun
  exact hsession.served

/-- A command that the NSP carries out while the host waits. -/
theorem exists_runs_nspCommand (nsp : NfpNsp) (hidle : s.Idle) (code : UInt16)
    (option buffCpp : UInt32) {buffAddr : UInt64}
    (hfit : fieldFit nspBufferAddress buffAddr = true) :
    ∃ s', s'.Idle ∧ Runs (nspDevice nsp.res) (nfpNspCommand nsp code option buffCpp buffAddr) s
      (0, nsp.checked) s' := by
  obtain ⟨s', e, hsteps, -, -, hret, he⟩ := steps_served (s := { s with
      buffer := nspBufferWord buffCpp buffAddr
      pending := some (nspCommandWord code option) }) s.mem rfl hidle.running
  exact ⟨s', he.idle, runs_nspCommand nsp hidle.running hfit .refl
    (hret ▸ runs_nspAwait nsp.checked hsteps he)⟩

/-- A command that waits until the host gives up. -/
theorem runs_nspCommand_timeout (nsp : NfpNsp) (hidle : s.Idle) (code : UInt16)
    (option buffCpp : UInt32) {buffAddr : UInt64}
    (hfit : fieldFit nspBufferAddress buffAddr = true) :
    Runs (nspDevice nsp.res) (nfpNspCommand nsp code option buffCpp buffAddr) s
      (-ETIMEDOUT, nsp.checked) { s with
        buffer := nspBufferWord buffCpp buffAddr
        pending := some (nspCommandWord code option) } :=
  runs_nspCommand nsp hidle.running hfit .refl
    (runs_nspAwait_timeout nsp.checked rfl nspCommandWord_start)

/-- The host waits for the NSP, gives it a firmware to load, and gives up on a third command. -/
theorem nspSession_served_three : ∃ calls s es, NspSession firstNsp.res idleNsp calls s ∧
    calls = [⟨.command NfpNspCmd.noop.code 0 0 0, 0, []⟩,
      ⟨.command NfpNspCmd.fwLoad.code 0 0 0x1000, 0, []⟩,
      ⟨.command NfpNspCmd.noop.code 0 0 0, -ETIMEDOUT, []⟩] ∧
    List.Forall₂ NspReturn.Became calls es ∧ s.served = [] ++ es.reduceOption := by
  have hidle : idleNsp.Idle := ⟨rfl, rfl⟩
  have hfit : fieldFit nspBufferAddress 0 = true := by decide
  have hfit' : fieldFit nspBufferAddress 0x1000 = true := by decide
  obtain ⟨s₁, hidle₁, hrun₁⟩ :=
    exists_runs_nspCommand firstNsp hidle NfpNspCmd.noop.code 0 0 hfit
  obtain ⟨s₂, hidle₂, hrun₂⟩ :=
    exists_runs_nspCommand firstNsp hidle₁ NfpNspCmd.fwLoad.code 0 0 hfit'
  have hrun₃ := runs_nspCommand_timeout firstNsp hidle₂ NfpNspCmd.noop.code 0 0 hfit
  -- a call that has returned 0 is settled
  have hsettled : ∀ call, NspReturn.Settled ⟨call, 0, []⟩ :=
    fun _ => (by decide : (0 : ℤ) ≠ -1 ∧ (0 : ℤ) ≠ -ETIMEDOUT)
  have hone := NspSession.call ⟨.command NfpNspCmd.noop.code 0 0 0, 0, []⟩ .nil nofun rfl
    (runs_bind.mpr ⟨_, s₁, hrun₁, .refl⟩)
  have htwo := hone.call ⟨.command NfpNspCmd.fwLoad.code 0 0 0x1000, 0, []⟩
    (List.forall_mem_singleton.mpr (hsettled _)) rfl (runs_bind.mpr ⟨_, s₂, hrun₂, .refl⟩)
  have hthree := htwo.call ⟨.command NfpNspCmd.noop.code 0 0 0, -ETIMEDOUT, []⟩
    (List.forall_mem_cons.mpr ⟨hsettled _, List.forall_mem_singleton.mpr (hsettled _)⟩) rfl
    (runs_bind.mpr ⟨_, _, hrun₃, .refl⟩)
  obtain ⟨es, hes, hserved⟩ := nspSession_served hidle hthree
  exact ⟨_, _, es, hthree, rfl, hes, hserved⟩

/-! ### A command that is overtaken -/

/-- **A command that has been given up is carried out with the buffer of the next**, which
succeeds. -/
theorem nspCommand_overtaken (nsp : NfpNsp) (hidle : s.Idle) (code₁ code₂ : UInt16)
    (option₁ option₂ buffCpp₁ buffCpp₂ : UInt32) {buffAddr₁ buffAddr₂ : UInt64}
    (hfit₁ : fieldFit nspBufferAddress buffAddr₁ = true)
    (hfit₂ : fieldFit nspBufferAddress buffAddr₂ = true) :
    ∃ nsp' s₁ s₂ e₁ e₂, nsp'.res = nsp.res ∧
      Runs (nspDevice nsp.res) (nfpNspCommand nsp code₁ option₁ buffCpp₁ buffAddr₁) s
        (-ETIMEDOUT, nsp') s₁ ∧
      Runs (nspDevice nsp.res) (nfpNspCommand nsp' code₂ option₂ buffCpp₂ buffAddr₂) s₁
        (0, nsp') s₂ ∧
      s₂.served = s.served ++ [e₁, e₂] ∧
      e₁.request = ⟨code₁, option₁, buffCpp₂ >>> 8, buffAddr₂⟩ ∧
      e₂.request = ⟨code₂, option₂, buffCpp₂ >>> 8, buffAddr₂⟩ := by
  -- the first command waits until the host gives up
  let s₁ : NspUnit := { s with
    buffer := nspBufferWord buffCpp₁ buffAddr₁
    pending := some (nspCommandWord code₁ option₁) }
  have hrun₁ : Runs (nspDevice nsp.res) (nfpNspCommand nsp code₁ option₁ buffCpp₁ buffAddr₁) s
      (-ETIMEDOUT, nsp.checked) s₁ :=
    runs_nspCommand_timeout nsp hidle code₁ option₁ buffCpp₁ hfit₁
  -- it is taken when the buffer has been written for the second
  obtain ⟨s₂, e₁, hsteps₁, hbuffer, -, -, he₁⟩ := steps_served (s := { s₁ with
      buffer := nspBufferWord buffCpp₂ buffAddr₂ }) s.mem rfl hidle.running
  obtain ⟨s₃, e₂, hsteps₂, -, -, hret, he₂⟩ := steps_served (s := { s₂ with
      pending := some (nspCommandWord code₂ option₂) }) s.mem rfl he₁.idle.running
  have hrun₂ : Runs (nspDevice nsp.res)
      (nfpNspCommand nsp.checked code₂ option₂ buffCpp₂ buffAddr₂) s₁ (0, nsp.checked) s₃ :=
    runs_nspCommand nsp.checked hidle.running hfit₂ hsteps₁ (hret ▸ runs_nspAwait _ hsteps₂ he₂)
  refine ⟨nsp.checked, s₁, s₃, e₁, e₂, rfl, hrun₁, hrun₂, ?_, ?_, ?_⟩
  · rw [he₂.served, he₁.served, List.append_assoc]
    rfl
  · rw [he₁.request]
    exact NspRequest.ofWords_words hfit₂
  · rw [he₂.request, hbuffer]
    exact NspRequest.ofWords_words hfit₂

/-- A firmware is to be loaded from 0x1000, and what is loaded is at the address of the next
command. -/
theorem nspCommand_overtaken_noop : ∃ nsp' s₁ s₂ e₁ e₂, nsp'.res = firstNsp.res ∧
    Runs (nspDevice firstNsp.res) (nfpNspCommand firstNsp NfpNspCmd.fwLoad.code 0 0 0x1000)
      idleNsp (-ETIMEDOUT, nsp') s₁ ∧
    Runs (nspDevice firstNsp.res) (nfpNspCommand nsp' NfpNspCmd.noop.code 0 0 0) s₁
      (0, nsp') s₂ ∧
    s₂.served = [] ++ [e₁, e₂] ∧ e₁.request = ⟨NfpNspCmd.fwLoad.code, 0, 0, 0⟩ ∧
    e₂.request = ⟨NfpNspCmd.noop.code, 0, 0, 0⟩ :=
  nspCommand_overtaken firstNsp ⟨rfl, rfl⟩ NfpNspCmd.fwLoad.code NfpNspCmd.noop.code 0 0 0 0
    (by decide) (by decide)

end NfpUdpEcho
