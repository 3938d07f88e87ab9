/-
  Hvac/Fallback.lean
  ==================
  **From remote to local reading**: what a sequence of reads returns when the server
  fails one of them.

  The failed read and all later ones go to the local descriptor, which still stands
  at the start of the file: the bytes returned so far have only moved the server's.
  `fallback_prefix_iff` says exactly when the application does not notice.
-/
import Hvac.Simulation

namespace Hvac

open Cxx Posix

variable (env : Env) (rl : ReadLen) (bbpath : String) (fd : Int)

/-! ### The reads of one descriptor -/

/-- A `read` of `count` bytes; the server answers it, or fails it with `-1`. -/
structure ReadEvent where
  count : Nat
  fails : Bool

def ReadEvent.served (count : Nat) : ReadEvent := ⟨count, false⟩

def ReadEvent.failed (count : Nat) : ReadEvent := ⟨count, true⟩

/-- What the server makes of a request, and what it answers. -/
def Server.serveRead (server : Server) (files : Files) (ev : ReadEvent) (request : Request) :
    Server × Option Reply :=
  if ev.fails then (server, some ⟨-1, []⟩)
  else (server.handle rl bbpath files 0 request).getD (server, none)

def readMachine : Machine (Proc × Server) ReadEvent (Outcome Reply) where
  step x ev :=
    let e := wrapRead env rl
      (fun files _ request => (x.2.serveRead rl bbpath files ev request).2) x.1 fd ev.count
    let server := e.sent.foldl
      (fun server sent => (server.serveRead rl bbpath x.1.files ev sent.2).1) x.2
    some ((e.state, server), e.outcome)

/-- The bytes a call brought. -/
def Outcome.bytes : Outcome Reply → Contents
  | .returned out => out.data
  | .blocked => []
  | .exited _ => []
  | .threw _ => []

/-- How many bytes a read brings: none when it would pass the largest offset and fails. -/
def readLen (size pos count : Nat) : Nat :=
  if pos + count ≤ LOFF_MAX then rl.len size pos count else 0

/-- The position after reads of the given counts. -/
def endAfter (size pos : Nat) (counts : List Nat) : Nat :=
  counts.foldl (fun pos count => pos + readLen rl size pos count) pos

/-- The server can answer reads of the given counts: they fit in 32 bits, and none of
    them passes the largest offset. -/
def Servable (size : Nat) : (pos : Nat) → List Nat → Prop
  | _, [] => True
  | pos, count :: counts =>
      (count < 2 ^ 31 ∧ pos + count ≤ LOFF_MAX) ∧ Servable size (pos + rl.len size pos count) counts

/-- A tracked descriptor of a file, locally at its start and at `pos` on the server. -/
structure Opened (p : Proc) (server : Server) (contents : Contents) (pos : Nat) : Prop where
  tracked : ∃ path, p.client.fdMap.find? fd = some path
  here : ∃ f, p.fds.find? fd = some f ∧ canRead f.flags = true ∧
    p.files.content f.file = contents ∧ f.pos = 0
  alive : server.alive = true
  there : ∃ r g, p.client.fdRedirMap.find? fd = some r ∧ server.fds.find? r = some g ∧
    canRead g.flags = true ∧ server.content bbpath p.files g.file = contents ∧ g.pos = pos

/-- An untracked descriptor at `pos`. -/
structure Local (p : Proc) (contents : Contents) (pos : Nat) : Prop where
  untracked : p.client.fdMap.find? fd = none
  here : ∃ f, p.fds.find? fd = some f ∧ canRead f.flags = true ∧
    p.files.content f.file = contents ∧ f.pos = pos

variable {env rl bbpath fd}

/-! ### Positions -/

theorem endAfter_cons (size pos count : Nat) (counts : List Nat) :
    endAfter rl size pos (count :: counts) =
      endAfter rl size (pos + readLen rl size pos count) counts := rfl

/-- In a file that ends that far below the largest offset, any counts will do that fit
    in 32 bits. -/
theorem servable_of_lt {size : Nat} (hsize : size + 2 ^ 31 ≤ LOFF_MAX + 1) {counts : List Nat}
    (hcounts : ∀ count ∈ counts, count < 2 ^ 31) :
    ∀ pos, pos ≤ size → Servable rl size pos counts := by
  induction counts with
  | nil => exact fun _ _ => trivial
  | cons count counts ih =>
    intro pos hpos
    have hcount := hcounts count List.mem_cons_self
    have hleft := rl.le_left size pos count
    refine ⟨⟨hcount, by omega⟩, ih (fun c hc => ?_) _ (by omega)⟩
    exact hcounts c (List.mem_cons_of_mem count hc)

theorem readLen_le (size pos count : Nat) : readLen rl size pos count ≤ size - pos := by
  unfold readLen
  split
  · exact rl.le_left size pos count
  · exact Nat.zero_le _

theorem le_endAfter (size : Nat) (counts : List Nat) :
    ∀ pos, pos ≤ endAfter rl size pos counts := by
  induction counts with
  | nil => exact fun pos => le_refl pos
  | cons count counts ih =>
    intro pos
    rw [endAfter_cons]
    exact le_trans (Nat.le_add_right pos _) (ih _)

theorem endAfter_le (size : Nat) (counts : List Nat) :
    ∀ pos, pos ≤ size → endAfter rl size pos counts ≤ size := by
  induction counts with
  | nil => exact fun pos hpos => hpos
  | cons count counts ih =>
    intro pos hpos
    rw [endAfter_cons]
    apply ih
    have hleft := @readLen_le rl size pos count
    omega

/-- One read and the reads after it are one slice. -/
theorem slice_endAfter_cons (contents : Contents) (pos count : Nat) (counts : List Nat) :
    let next := pos + readLen rl contents.length pos count
    slice contents pos (readLen rl contents.length pos count) ++
        slice contents next (endAfter rl contents.length next counts - next) =
      slice contents pos (endAfter rl contents.length pos (count :: counts) - pos) := by
  intro next
  have hle := @le_endAfter rl contents.length counts next
  rw [slice_append_slice, endAfter_cons]
  congr 1
  show readLen rl contents.length pos count + (endAfter rl contents.length next counts - next) =
    endAfter rl contents.length next counts - pos
  omega

/-- Two stretches in a row start the file when the second is what follows the first. -/
theorem append_prefix_iff {contents : Contents} {m n : Nat} (hn : n ≤ contents.length) :
    slice contents 0 m ++ slice contents 0 n <+: contents ↔
      slice contents m n = slice contents 0 n := by
  have hsplit : contents = slice contents 0 m ++ contents.drop m := by
    simp only [slice, List.drop_zero, List.take_append_drop]
  have hlength : (slice contents 0 n).length = n := by
    rw [length_slice]
    omega
  calc slice contents 0 m ++ slice contents 0 n <+: contents
      ↔ slice contents 0 m ++ slice contents 0 n <+: slice contents 0 m ++ contents.drop m := by
        rw [← hsplit]
    _ ↔ slice contents 0 n <+: contents.drop m := List.prefix_append_right_inj _
    _ ↔ slice contents 0 n = slice contents m n := by
        rw [List.prefix_iff_eq_take, hlength]
        rfl
    _ ↔ slice contents m n = slice contents 0 n := eq_comm

/-- In every state the system reaches, a tracked descriptor that was not read
    locally is one. -/
theorem TrackedFd.opened {s : Sys} {side : Int → Side} {p : Proc} {path : String} {r : Int}
    {f g : OpenFile String} (ht : TrackedFd bbpath s side p fd path r f g)
    (hpath : s.proc.client.fdMap.find? fd = some path) (hfollows : Follows env bbpath s side p)
    (hf : f.pos = 0) :
    Opened bbpath fd s.proc (s.net.servers 0) (s.proc.files.content path) g.pos where
  tracked := ⟨path, hpath⟩
  here := ⟨f, ht.here, ht.canRead, by rw [ht.file], hf⟩
  alive := hfollows.alive
  there := ⟨r, g, ht.redir, ht.there, ht.canReadThere, ht.content, rfl⟩

/-! ### One read -/

section Reads

variable {p : Proc} {server : Server} {contents : Contents} {pos : Nat}

variable (env rl) in
theorem Opened.served (h : Opened bbpath fd p server contents pos) {count : Nat}
    (hcount : count < 2 ^ 31) (hend : pos + count ≤ LOFF_MAX) :
    ∃ server' out, (readMachine env rl bbpath fd).step (p, server) (.served count) =
        some ((p, server'), .returned out) ∧
      out.data = slice contents pos (readLen rl contents.length pos count) ∧
      Opened bbpath fd p server' contents (pos + readLen rl contents.length pos count) := by
  obtain ⟨path, hpath⟩ := h.tracked
  obtain ⟨r, g, hr, hg, hread, hcontent, rfl⟩ := h.there
  have hhandle := @Server.handle_read rl bbpath p.files server r count fd g h.alive
    (Int.natCast_nonneg count) hg hread hend 0 (by decide)
  simp only [hcontent, Int.toNat_natCast] at hhandle
  rw [readLen, if_pos hend]
  refine ⟨{ server with
    fds := server.fds.insert r { g with pos := g.pos + rl.len contents.length g.pos count }
    fdToPath := (server.fdToPath.index r "").2 }, ⟨rl.len contents.length g.pos count,
      slice contents g.pos (rl.len contents.length g.pos count)⟩, ?_, rfl, ?_⟩
  · simp only [readMachine, wrapRead, hvacRemoteRead_eq hpath hr, Server.serveRead,
      ReadEvent.served, Bool.false_eq_true, if_false, int32_count hcount, hhandle,
      Option.getD_some, Effect.andThen, finishRead_natCast, int32_readLen,
      not_lt.mpr (Int.natCast_nonneg _), List.foldl_cons, List.foldl_nil]
  · exact ⟨⟨path, hpath⟩, h.here, h.alive, r,
      { g with pos := g.pos + rl.len contents.length g.pos count }, hr,
      OrdMap.find?_insert_self .., hread, hcontent, rfl⟩

/-- A read of the local descriptor. -/
theorem realRead_at {p : Proc} {f : OpenFile String} (hf : p.fds.find? fd = some f)
    (hread : canRead f.flags = true) (hcontent : p.files.content f.file = contents) (count : Nat) :
    (realRead rl p fd count).2.data =
        slice contents f.pos (readLen rl contents.length f.pos count) ∧
      (realRead rl p fd count).1.client = p.client ∧ (realRead rl p fd count).1.files = p.files ∧
      (realRead rl p fd count).1.fds.find? fd =
        some { f with pos := f.pos + readLen rl contents.length f.pos count } := by
  by_cases hend : f.pos + count ≤ LOFF_MAX
  · simp only [realRead, sysRead_of_find? hf hread hend, hcontent, readLen, if_pos hend, true_and]
    exact OrdMap.find?_insert_self ..
  · simp only [realRead, sysRead, hf, hend, and_false, if_false, readLen, slice_zero, Nat.add_zero,
      and_self]

variable (env rl) in
/-- The local descriptor takes over. -/
theorem Opened.failed (h : Opened bbpath fd p server contents pos) (count : Nat) :
    ∃ p' out, (readMachine env rl bbpath fd).step (p, server) (.failed count) =
        some ((p', server), .returned out) ∧
      out.data = slice contents 0 (readLen rl contents.length 0 count) ∧
      Local fd p' contents (readLen rl contents.length 0 count) := by
  obtain ⟨path, hpath⟩ := h.tracked
  obtain ⟨r, -, hr, -⟩ := h.there
  obtain ⟨f, hf, hread, hcontent, hpos⟩ := h.here
  have hneg : int32 (-1) < 0 := by decide
  let q : Proc := { p with client := { p.client with fdMap := p.client.fdMap.erase fd } }
  obtain ⟨hdata, hclient, hfiles, hfds⟩ := @realRead_at rl fd contents q f hf hread hcontent count
  rw [hpos] at hdata hfds
  refine ⟨(realRead rl q fd count).1, ⟨int32 (realRead rl q fd count).2.ret, _⟩, ?_, hdata, ?_, ?_⟩
  · simp only [readMachine, wrapRead, hvacRemoteRead_eq hpath hr, Server.serveRead,
      ReadEvent.failed, if_true, Effect.andThen, finishRead, hneg, List.foldl_cons, List.foldl_nil]
    rfl
  · rw [hclient]
    exact OrdMap.find?_erase_self ..
  · refine ⟨_, hfds, hread, ?_, Nat.zero_add _⟩
    rw [hfiles]
    exact hcontent

variable (env rl bbpath) in
theorem Local.read (h : Local fd p contents pos) (server : Server) (ev : ReadEvent) :
    ∃ p' out, (readMachine env rl bbpath fd).step (p, server) ev =
        some ((p', server), .returned out) ∧
      out.data = slice contents pos (readLen rl contents.length pos ev.count) ∧
      Local fd p' contents (pos + readLen rl contents.length pos ev.count) := by
  obtain ⟨f, hf, hread, hcontent, rfl⟩ := h.here
  have hneg : int32 (-1) < 0 := by decide
  obtain ⟨hdata, hclient, hfiles, hfds⟩ :=
    @realRead_at rl fd contents p f hf hread hcontent ev.count
  refine ⟨(realRead rl p fd ev.count).1, ⟨int32 (realRead rl p fd ev.count).2.ret, _⟩, ?_, hdata,
    ?_, ?_⟩
  · simp only [readMachine, wrapRead, hvacRemoteRead, Client.hvacGetPath_eq, h.untracked,
      Effect.andThen, hneg, if_true, List.foldl_nil]
  · rw [hclient]
    exact h.untracked
  · refine ⟨_, hfds, hread, ?_, rfl⟩
    rw [hfiles]
    exact hcontent

/-! ### A sequence of reads -/

variable (env rl) in
theorem Opened.run {before : List Nat} :
    ∀ {server : Server} {pos : Nat}, Opened bbpath fd p server contents pos →
      Servable rl contents.length pos before →
      ∃ server' outs, (readMachine env rl bbpath fd).run (p, server) (before.map .served) =
          some ((p, server'), outs) ∧
        Opened bbpath fd p server' contents (endAfter rl contents.length pos before) ∧
        outs.flatMap Outcome.bytes =
          slice contents pos (endAfter rl contents.length pos before - pos) := by
  induction before with
  | nil =>
    intro server pos h _
    refine ⟨server, [], rfl, h, ?_⟩
    simp [endAfter]
  | cons count before ih =>
    intro server pos h hserve
    obtain ⟨⟨hcount, hend⟩, hrest⟩ := hserve
    obtain ⟨server₁, out, hstep, hdata, h₁⟩ := h.served env rl hcount hend
    have hlen : readLen rl contents.length pos count = rl.len contents.length pos count :=
      if_pos hend
    obtain ⟨server', outs, hrun, h', hbytes⟩ := ih h₁ (by rw [hlen]; exact hrest)
    refine ⟨server', _, Machine.run_cons_eq_some_iff.mpr ⟨_, _, outs, hstep, hrun, rfl⟩, h', ?_⟩
    rw [List.flatMap_cons, hbytes, Outcome.bytes, hdata]
    exact slice_endAfter_cons contents pos count before

variable (env rl bbpath) in
theorem Local.run (events : List ReadEvent) :
    ∀ {p : Proc} {pos : Nat}, Local fd p contents pos → ∀ server : Server,
      ∃ x outs, (readMachine env rl bbpath fd).run (p, server) events = some (x, outs) ∧
        outs.flatMap Outcome.bytes = slice contents pos
          (endAfter rl contents.length pos (events.map ReadEvent.count) - pos) := by
  induction events with
  | nil =>
    intro p pos h server
    refine ⟨(p, server), [], rfl, ?_⟩
    simp [endAfter]
  | cons ev events ih =>
    intro p pos h server
    obtain ⟨p₁, out, hstep, hdata, h₁⟩ := h.read env rl bbpath server ev
    obtain ⟨x, outs, hrun, hbytes⟩ := ih h₁ server
    refine ⟨x, _, Machine.run_cons_eq_some_iff.mpr ⟨_, _, outs, hstep, hrun, rfl⟩, ?_⟩
    rw [List.flatMap_cons, hbytes, List.map_cons, Outcome.bytes, hdata]
    exact slice_endAfter_cons contents pos ev.count (events.map ReadEvent.count)

/-- **The bytes returned before and after the server's first failure are a prefix of
    the file exactly when the bytes that follow those served before the failure are
    those the file starts with**, as many as are read locally. -/
theorem fallback_prefix_iff (h : Opened bbpath fd p server contents 0) (before : List Nat)
    (hbefore : Servable rl contents.length 0 before) (count : Nat) (after : List ReadEvent) :
    ∃ x outs, (readMachine env rl bbpath fd).run (p, server)
        (before.map .served ++ .failed count :: after) = some (x, outs) ∧
      (outs.flatMap Outcome.bytes <+: contents ↔
        let served := endAfter rl contents.length 0 before
        let later := endAfter rl contents.length 0 (count :: after.map ReadEvent.count)
        slice contents served later = slice contents 0 later) := by
  obtain ⟨server₁, outs₁, hrun₁, h₁, hbytes₁⟩ := Opened.run env rl h hbefore
  obtain ⟨p₂, out₂, hstep₂, hdata₂, h₂⟩ := h₁.failed env rl count
  obtain ⟨x, outs₃, hrun₃, hbytes₃⟩ :=
    Local.run env rl bbpath after h₂ server₁
  have hrun₂ := Machine.run_cons_eq_some_iff.mpr ⟨_, _, outs₃, hstep₂, hrun₃, rfl⟩
  refine ⟨x, _, Machine.run_append_eq_some hrun₁ hrun₂, ?_⟩
  have hlater := @slice_endAfter_cons rl contents 0 count (after.map ReadEvent.count)
  simp only [Nat.zero_add, Nat.sub_zero] at hlater hbytes₁
  rw [List.flatMap_append, List.flatMap_cons, hbytes₁, hbytes₃, Outcome.bytes, hdata₂]
  show slice contents 0 _ ++ (slice contents 0 _ ++ slice contents _ _) <+: contents ↔ _
  rw [hlater]
  exact append_prefix_iff (endAfter_le _ _ 0 (Nat.zero_le _))

end Reads

/-- Descriptor 3 on a file of three bytes, as an open leaves it. -/
def openedProc : Proc where
  client := { hvacClientInit zeroHashEnv 1 with
    fdMap := OrdMap.empty.insert 3 "/data/a", fdRedirMap := OrdMap.empty.insert 3 5 }
  fds := OrdMap.empty.insert 3 ⟨"/data/a", O_RDONLY, 0⟩
  files := threeBytes

def openedServer : Server :=
  { Server.init with fds := OrdMap.empty.insert 5 ⟨"/data/a", O_RDONLY, 0⟩ }

theorem opened_openedProc : Opened "/bb" 3 openedProc openedServer [1, 2, 3] 0 where
  tracked := ⟨"/data/a", rfl⟩
  here := ⟨⟨"/data/a", O_RDONLY, 0⟩, rfl, rfl, by decide +kernel, rfl⟩
  alive := rfl
  there := ⟨5, ⟨"/data/a", O_RDONLY, 0⟩, rfl, rfl, rfl, by decide +kernel, rfl⟩

theorem fallback_prefix_iff_second :
    ∃ x outs, (readMachine zeroHashEnv ReadLen.full "/bb" 3).run (openedProc, openedServer)
        [.served 1, .failed 2, .served 2] = some (x, outs) ∧
      (outs.flatMap Outcome.bytes <+: [1, 2, 3] ↔
        let served := endAfter ReadLen.full 3 0 [1]
        let later := endAfter ReadLen.full 3 0 [2, 2]
        slice [1, 2, 3] served later = slice [1, 2, 3] 0 later) :=
  fallback_prefix_iff opened_openedProc [1]
    (servable_of_lt (by decide) (by decide) 0 (Nat.zero_le 3)) 2 [.served 2]

/-- The byte that was read before the failure is read again after it. -/
theorem fallback_repeats :
    ∃ x outs, (readMachine zeroHashEnv ReadLen.full "/bb" 3).run (openedProc, openedServer)
        [.served 1, .failed 1] = some (x, outs) ∧
      ¬ outs.flatMap Outcome.bytes <+: [1, 2, 3] := by
  have hrun : ((readMachine zeroHashEnv ReadLen.full "/bb" 3).run (openedProc, openedServer)
      [.served 1, .failed 1]).map (fun r => r.2.flatMap Outcome.bytes) = some [1, 1] := by
    decide +kernel
  obtain ⟨⟨x, outs⟩, hrun, hbytes⟩ := Option.map_eq_some_iff.mp hrun
  refine ⟨x, outs, hrun, ?_⟩
  rw [hbytes]
  decide

end Hvac
