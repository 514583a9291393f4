import OgleServer.Handlers

/-!
# Sessions — short runs of requests, for every input

Two sessions of the specification, over every executable, symbol, host
file and kernel behaviour they allow: `Run; Breakpoint("sym:" + n); Resume`
stops at the symbol (`run_breakpoint_resume_sym`), and `Open; ReadAt;
Close; ReadAt` on the slot `Open` filled reads the file's bytes only when
it holds all of them, then refuses the closed descriptor
(`open_readAt_close`). `Open` does not answer the descriptor: the client
has to know that it is the table's first empty slot.
-/

namespace OgleServer

/-! ## A breakpoint on a symbol, then `Resume` -/

/-- **`Run; Breakpoint("sym:" + n); Resume` stops at the symbol.** From
the server `New` returns, with a kernel that answers every call, whose
first real trap is the exec and whose next one leaves `Rip` just past
the breakpoint instruction at the symbol's address `a`: each request
returns, and `Resume` answers `a` and the trapped task's `Rsp`. -/
theorem run_breakpoint_resume_sym {exe : Exe} {e₀ : Engine} {n : String} {a : BitVec 64}
    {mid rest : List (Except String Stop)} {stop : Stop}
    (h₀ : Initial e₀) (hacks : e₀.world.acks = [])
    (hsym : exe.lookupSym n = .ok a) (hname : ∃ err, exe.lookupSym (fmtHex a.toNat) = .error err)
    (hexec : TrapAfter e₀.world.stops mid) (htrap : TrapAt mid stop rest)
    (hrip : stop.regs.rip = a + BitVec.ofNat 64 exe.arch.breakpointSize) :
    ∃ e, Run exe e₀ [(.run, .ok .run), (.breakpoint ("sym:" ++ n), .ok .breakpoint),
      (.resume, .ok (.resume ⟨a, stop.regs.rsp⟩))] e := by
  obtain ⟨hsrv, -⟩ := h₀
  obtain ⟨e₁, hrun, hsrv₁, ht₁, hacks₁, hst₁⟩ := @run_fresh exe e₀ (by rw [hsrv]; rfl) hacks
  obtain ⟨e₂, hat, hsrv₂, ht₂, hacks₂, hst₂⟩ := breakpointAt_fresh (evalAddress_fmtHex exe a hname)
    (by rw [hsrv₁, hsrv]; exact AList.not_mem_empty a) ht₁ (by simp [hacks₁])
  have hbp : breakpoint exe ("sym:" ++ n) e₁ = .ok () e₂ := by
    rw [breakpoint_sym_eq hsym, bind_ok hat]
    rfl
  obtain ⟨e₃, hres⟩ := @resume_reports exe e₂ e₀.world.nextPid mid rest stop
    (by rw [hsrv₂, hsrv₁]) (by rw [hsrv₂, hsrv₁, hsrv]; rfl)
    ⟨by rw [ht₂]; rfl, by rw [hacks₂, hacks₁]; rfl⟩ (by rw [hst₂, hst₁]; exact hexec) htrap
  rw [hrip, BitVec.add_sub_cancel] at hres
  exact ⟨e₃, Run.head (serve_bind_ok hrun (by rfl)) (Run.head (serve_bind_ok hbp (by rfl))
    (Run.single (serve_bind_ok hres (by rfl))))⟩

/-- The session on `demoExe`, with a breakpoint at `main.foo`. -/
theorem run_breakpoint_resume_main_foo :
    let stop : Stop := ⟨1, .stopped 5 0, ⟨0x1001, 0x7ff0⟩⟩
    let e₀ : Engine := ⟨Server.new, World.start [.ok ⟨1, .stopped 5 0, ⟨0x400, 0x7ff0⟩⟩, .ok stop]⟩
    Initial e₀ ∧ e₀.world.acks = [] ∧ demoExe.lookupSym "main.foo" = .ok 0x1000 ∧
    (∃ err, demoExe.lookupSym (fmtHex (0x1000 : BitVec 64).toNat) = .error err) ∧
    TrapAfter e₀.world.stops [.ok stop] ∧ TrapAt [.ok stop] stop [] ∧
    stop.regs.rip = 0x1000 + BitVec.ofNat 64 demoExe.arch.breakpointSize ∧
    ∃ e, Run demoExe e₀ [(.run, .ok .run), (.breakpoint ("sym:" ++ "main.foo"), .ok .breakpoint),
      (.resume, .ok (.resume ⟨0x1000, stop.regs.rsp⟩))] e :=
  have hexec : TrapAfter [.ok ⟨1, .stopped 5 0, ⟨0x400, 0x7ff0⟩⟩, .ok ⟨1, .stopped 5 0, ⟨0x1001, 0x7ff0⟩⟩]
      [.ok ⟨1, .stopped 5 0, ⟨0x1001, 0x7ff0⟩⟩] :=
    ⟨[], _, rfl, by decide, rfl⟩
  have htrap : TrapAt [.ok ⟨1, .stopped 5 0, ⟨0x1001, 0x7ff0⟩⟩] ⟨1, .stopped 5 0, ⟨0x1001, 0x7ff0⟩⟩ [] :=
    ⟨[], rfl, by decide, rfl⟩
  ⟨⟨rfl, rfl⟩, rfl, rfl, ⟨_, rfl⟩, hexec, htrap, rfl,
    run_breakpoint_resume_sym ⟨rfl, rfl⟩ rfl rfl ⟨_, rfl⟩ hexec htrap rfl⟩

/-! ## A host file, read and closed -/

/-- **`Open; ReadAt; Close; ReadAt` on the slot `Open` filled.** With a
host that answers every call and maps a buffer of `len` bytes, the first
`ReadAt` answers the file's `len` bytes from `off` when the file holds
them all, and `EOF` (the error of `(*os.File).ReadAt`) when it does not;
after `Close`, `ReadAt` refuses the descriptor. -/
theorem open_readAt_close {exe : Exe} {e : Engine} {name mode : String} {len off len' off' : Int}
    (hacks : e.world.acks = []) (hmode : mode = "r" ∨ mode = "rw")
    (hoff : 0 ≤ off) (hlen : 0 < len) (hmax : len ≤ maxAlloc) (hmap : len ≤ e.world.mapLimit) :
    ∃ e', Run exe e [(.open_ name mode, .ok .open_),
      (.readAt (freeSlot e.srv.files) len off,
        if off.toNat + len.toNat ≤ (e.world.disk name).length
        then .ok (.readAt (((e.world.disk name).drop off.toNat).take len.toNat)) else .error "EOF"),
      (.close (freeSlot e.srv.files), .ok .close),
      (.readAt (freeSlot e.srv.files) len' off',
        .error ("ReadAt: bad file descriptor " ++ toString (freeSlot e.srv.files : Int)))] e' := by
  obtain ⟨flag, hflag, hread⟩ : ∃ flag, openFlag mode = some flag ∧ flag ≠ O_WRONLY := by
    rcases hmode with rfl | rfl <;> exact ⟨_, rfl, by decide⟩
  obtain ⟨e₁, hopen, hfiles₁, hw₁⟩ := @open__ok name mode flag e hflag hacks
  have hslot : slot e₁.srv.files (freeSlot e.srv.files) = some ⟨mode, freeSlot e.srv.files, ⟨name, flag⟩⟩ :=
    hfiles₁ ▸ slot_place_freeSlot _ _
  obtain ⟨e₃, hclose, hfiles₃, -⟩ := close_ok hslot (by rw [hw₁])
  have hdata := readAt_of_slot hslot (by rw [hw₁]) hoff hlen hmax (by rw [hw₁]; exact hmap) hread
  rw [hw₁] at hdata
  refine ⟨e₃, Run.head (serve_bind_ok hopen (by rfl)) (Run.head ?_
    (Run.head (serve_bind_ok hclose (by rfl))
      (Run.single (serve_bind_error (readAt_bad_fd (hfiles₃ ▸ slot_set_none _ _)) (by rfl)))))⟩
  split
  · exact serve_bind_ok (hdata.trans (if_pos ‹_›)) rfl
  · exact serve_bind_error (hdata.trans (if_neg ‹_›)) rfl

/-- A five-byte `/etc/hostname` read 256 bytes at a time: `EOF`. -/
theorem open_readAt_close_hostname :
    let e : Engine := ⟨Server.new, { World.start [] with
      disk := fun n => if n = "/etc/hostname" then [0x6f, 0x67, 0x6c, 0x65, 0x0a] else [] }⟩
    e.world.acks = [] ∧ ("r" = "r" ∨ "r" = "rw") ∧ (0 : Int) ≤ 0 ∧ (0 : Int) < 256 ∧ (256 : Int) ≤ maxAlloc ∧
    (256 : Int) ≤ e.world.mapLimit ∧
    ∃ e', Run demoExe e [(.open_ "/etc/hostname" "r", .ok .open_),
      (.readAt (freeSlot e.srv.files) 256 0,
        if (0 : Int).toNat + (256 : Int).toNat ≤ (e.world.disk "/etc/hostname").length
        then .ok (.readAt (((e.world.disk "/etc/hostname").drop (0 : Int).toNat).take (256 : Int).toNat))
        else .error "EOF"),
      (.close (freeSlot e.srv.files), .ok .close),
      (.readAt (freeSlot e.srv.files) 256 0,
        .error ("ReadAt: bad file descriptor " ++ toString (freeSlot e.srv.files : Int)))] e' :=
  ⟨rfl, .inl rfl, le_refl 0, by decide, by decide, by decide,
    open_readAt_close rfl (.inl rfl) (le_refl 0) (by decide) (by decide) (by decide)⟩

end OgleServer
