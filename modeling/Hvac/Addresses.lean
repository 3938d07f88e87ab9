/-
  Hvac/Addresses.lean
  ===================
  **The address file** `.ports.cfg.<jobid>`: each server appends one line with its
  rank and its address (`hvac_comm_list_addr`), a client scans the lines for a rank
  and remembers what it found (`hvac_client_comm_lookup_addr`).

  The scan loop stays in step with the lines (`scanLine_addrLine`,
  `scanFor_addrFile`), so a rank that has posted resolves to its address, and from
  then on without the file.  But a scan never closes its stream, and `fopen` fails
  once the process has no further one: a rank that is not in the cache resolves
  exactly as long as there is (`lookup_resolves_iff`).  Up to there the cache changes
  no answer, also where ranks post again (`cache_transparent`).

  An append is one step; `fopen` fails where there is no file or no stream left.
-/
import Hvac.Library.Scanf
import Hvac.Library.Machine
import Hvac.Library.OrdMap

namespace Hvac

open Cxx

def PATH_MAX : Nat := 4096

/-! ### Writer and scanner -/

/-- The line of `hvac_comm_list_addr`: `"%d %s\n"`. -/
def addrLine (rank : Int) (addr : List Char) : List Char :=
  printInt rank ++ ' ' :: (addr ++ ['\n'])

/-- `fscanf(na_config, "%d %s\n", &svr_rank, svr_str) == 2`, and what is left. -/
def scanLine (s : List Char) : Option (Int × List Char × List Char) :=
  match scanInt s with
  | none => none
  | some (svrRank, s) =>
      match scanToken (skipSpace s) with
      | none => none
      | some (svrStr, s) => some (svrRank, svrStr, skipSpace s)

theorem length_of_scanLine {s svrStr rest : List Char} {svrRank : Int}
    (h : scanLine s = some (svrRank, svrStr, rest)) : rest.length < s.length := by
  unfold scanLine at h
  rcases hint : scanInt s with _ | ⟨n, s₁⟩
  · rw [hint] at h
    cases h
  · rcases htoken : scanToken (skipSpace s₁) with _ | ⟨token, s₂⟩
    · simp only [hint, htoken] at h
      cases h
    · simp only [hint, htoken, Option.some.injEq, Prod.mk.injEq] at h
      obtain ⟨-, -, rfl⟩ := h
      have h₁ := length_of_scanInt hint
      have h₂ := length_of_scanToken htoken
      have h₃ := length_skipSpace s₁
      have h₄ := length_skipSpace s₂
      omega

/-- How the scan loop ends; `overflow` where a token does not fit `svr_str`. -/
inductive ScanResult where
  | found (svrStr : List Char)
  | notFound
  | overflow
deriving DecidableEq

/-- The loop of `hvac_client_comm_lookup_addr`. -/
def scanFor (rank : Int) (s : List Char) : ScanResult :=
  match _ : scanLine s with
  | none => .notFound
  | some (svrRank, svrStr, rest) =>
      if PATH_MAX ≤ svrStr.length then .overflow
      else if svrRank = rank then .found svrStr
      else scanFor rank rest
termination_by s.length
decreasing_by exact length_of_scanLine ‹_›

/-! ### Servers and a client -/

/-- `freeStreams` is how many more streams the client can open. -/
structure AddrState where
  file : Option (List Char)
  addressCache : OrdMap Int (List Char)
  freeStreams : Nat
deriving DecidableEq

def AddrState.start (streams : Nat) : AddrState := ⟨none, OrdMap.empty, streams⟩

inductive AddrLabel where
  | listAddr (rank : Int) (addr : List Char)
  | lookup (rank : Int)
deriving DecidableEq

/-- Where an address came from. -/
inductive Resolved where
  | cached (addr : List Char)
  | scanned (addr : List Char)
  | unresolved
deriving DecidableEq

def Resolved.addr? : Resolved → Option (List Char)
  | cached addr => some addr
  | scanned addr => some addr
  | unresolved => none

/-- The scan of the file, whose stream stays open; `none` where there is no stream or
    the token runs past `svr_str`. -/
def AddrState.scan (s : AddrState) (rank : Int) : Option (AddrState × Option (List Char)) :=
  match s.file, s.freeStreams with
  | some text, free + 1 =>
      match scanFor rank text with
      | .found svrStr => some ({ s with freeStreams := free }, some svrStr)
      | .notFound => some ({ s with freeStreams := free }, none)
      | .overflow => none
  | _, _ => none

/-- `hvac_client_comm_lookup_addr`. -/
def AddrState.lookupAddr (s : AddrState) (rank : Int) : Option (AddrState × Resolved) :=
  match s.addressCache.find? rank with
  | some addr => some (s, .cached addr)
  | none =>
      match s.scan rank with
      | none => none
      | some (s, none) => some (s, .unresolved)
      | some (s, some svrStr) =>
          some ({ s with addressCache := s.addressCache.insert rank svrStr }, .scanned svrStr)

def addrMachine : Machine AddrState AddrLabel (Option Resolved) where
  step s l :=
    match l with
    | .listAddr rank addr =>
        some ({ s with file := some (s.file.getD [] ++ addrLine rank addr) }, none)
    | .lookup rank => (s.lookupAddr rank).map fun r => (r.1, some r.2)

def AddrLabel.isLookup : AddrLabel → Bool
  | .listAddr _ _ => false
  | .lookup _ => true

/-- The lines that were posted, in their order. -/
def postsOf (labels : List AddrLabel) : List (Int × List Char) :=
  labels.filterMap fun l =>
    match l with
    | .listAddr rank addr => some (rank, addr)
    | .lookup _ => none

theorem postsOf_eq_nil {labels : List AddrLabel} (h : ∀ l ∈ labels, l.isLookup = true) :
    postsOf labels = [] := by
  rw [postsOf, List.filterMap_eq_nil_iff]
  intro l hl
  cases l with
  | listAddr rank addr => cases h _ hl
  | lookup rank => rfl

/-- What a server posts: its rank, an `int`, and an address that is one token. -/
structure Postable (post : Int × List Char) : Prop where
  rank : IsInt32 post.1
  nonempty : post.2 ≠ []
  token : ∀ c ∈ post.2, isSpace c = false
  length : post.2.length < PATH_MAX

/-- Every server posts once. -/
structure PostsOk (posts : List (Int × List Char)) : Prop where
  distinct : (posts.map Prod.fst).Nodup
  each : ∀ post ∈ posts, Postable post

def addrFile (posts : List (Int × List Char)) : List Char :=
  posts.flatMap fun post => addrLine post.1 post.2

/-! ### The scan -/

theorem stops_addrFile (posts : List (Int × List Char)) : Stops isSpace (addrFile posts) := by
  cases posts with
  | nil => exact stops_nil _
  | cons post posts =>
    have hfile : addrFile (post :: posts) =
        printInt post.1 ++ (' ' :: (post.2 ++ ['\n']) ++ addrFile posts) := by
      rw [addrFile, List.flatMap_cons, addrLine, List.append_assoc]
      rfl
    rw [hfile]
    exact stops_printInt _ _

/-- One scan takes one line, up to the first character of the next. -/
theorem scanLine_addrLine {rank : Int} {addr rest : List Char} (hpost : Postable (rank, addr))
    (hrest : Stops isSpace rest) :
    scanLine (addrLine rank addr ++ rest) = some (rank, addr, rest) := by
  have hline : addrLine rank addr ++ rest =
      printInt rank ++ (' ' :: (addr ++ '\n' :: rest)) := by
    simp only [addrLine, List.append_assoc, List.cons_append, List.nil_append]
  have hint := scanInt_printInt rank (stops_cons (by decide) (addr ++ '\n' :: rest) :
    Stops Char.isDigit (' ' :: (addr ++ '\n' :: rest)))
  have hblank : skipSpace (' ' :: (addr ++ '\n' :: rest)) = addr ++ '\n' :: rest := by
    obtain ⟨c, cs, hcs⟩ := List.exists_cons_of_ne_nil hpost.nonempty
    dsimp only at hcs
    rw [skipSpace, List.dropWhile_cons_of_pos (by decide), hcs]
    apply skipSpace_of_stops
    exact stops_cons (hpost.token c (by rw [hcs]; exact List.mem_cons_self)) _
  have htoken := scanToken_append hpost.nonempty hpost.token
    (show ∀ c ∈ ('\n' :: rest).head?, isSpace c = true by
      intro c hc
      cases hc
      decide)
  have hnewline : skipSpace ('\n' :: rest) = rest := by
    rw [skipSpace, List.dropWhile_cons_of_pos (by decide)]
    exact hrest.dropWhile_eq
  rw [hline]
  simp only [scanLine, hint, hblank, htoken, hnewline]

/-- The loop finds the first line of the rank. -/
theorem scanFor_addrFile {posts : List (Int × List Char)} (hposts : ∀ post ∈ posts, Postable post)
    (rank : Int) :
    scanFor rank (addrFile posts) =
      match posts.find? fun post => decide (post.1 = rank) with
      | some post => .found post.2
      | none => .notFound := by
  induction posts with
  | nil =>
    unfold scanFor
    rfl
  | cons post posts ih =>
    obtain ⟨svrRank, svrStr⟩ := post
    have hpost : Postable (svrRank, svrStr) := hposts _ List.mem_cons_self
    have hscan : scanLine (addrFile ((svrRank, svrStr) :: posts)) =
        some (svrRank, svrStr, addrFile posts) :=
      scanLine_addrLine hpost (stops_addrFile posts)
    have hfits : ¬ PATH_MAX ≤ svrStr.length := not_le.mpr hpost.length
    unfold scanFor
    split
    · next hnone =>
      rw [hscan] at hnone
      cases hnone
    · next hsome =>
      rw [hscan] at hsome
      cases hsome
      rw [if_neg hfits]
      by_cases hrank : svrRank = rank
      · simp only [hrank, if_true, List.find?_cons, decide_true]
      · rw [if_neg hrank, ih fun post hmem => hposts post (List.mem_cons_of_mem _ hmem)]
        simp only [List.find?_cons, hrank, decide_false]

/-- With distinct ranks that is the rank's own line. -/
theorem find?_post {posts : List (Int × List Char)} (hdistinct : (posts.map Prod.fst).Nodup)
    {rank : Int} {addr : List Char} (hmem : (rank, addr) ∈ posts) :
    (posts.find? fun post => decide (post.1 = rank)) = some (rank, addr) := by
  induction posts with
  | nil => cases hmem
  | cons post posts ih =>
    rw [List.map_cons, List.nodup_cons] at hdistinct
    rcases List.mem_cons.mp hmem with rfl | hmem
    · simp
    · have hne : post.1 ≠ rank := by
        rintro rfl
        exact hdistinct.1 (List.mem_map.mpr ⟨_, hmem, rfl⟩)
      simp only [List.find?_cons, hne, decide_false]
      exact ih hdistinct.2 hmem

/-! ### Runs -/

/-- The file is what was posted, and the cache holds some of it. -/
structure AddrInv (posts : List (Int × List Char)) (s : AddrState) : Prop where
  file : s.file = if posts = [] then none else some (addrFile posts)
  cache : ∀ rank addr, s.addressCache.find? rank = some addr → (rank, addr) ∈ posts

theorem AddrInv.getD_file {posts : List (Int × List Char)} {s : AddrState} (h : AddrInv posts s) :
    s.file.getD [] = addrFile posts := by
  rw [h.file]
  split
  · next hnil =>
    rw [hnil]
    rfl
  · rfl

theorem AddrInv.listAddr {posts : List (Int × List Char)} {s : AddrState} (h : AddrInv posts s)
    (rank : Int) (addr : List Char) :
    AddrInv (posts ++ [(rank, addr)])
      { s with file := some (s.file.getD [] ++ addrLine rank addr) } := by
  constructor
  · rw [if_neg (List.append_ne_nil_of_right_ne_nil _ (List.cons_ne_nil _ _)), h.getD_file]
    simp only [addrFile, List.flatMap_append, List.flatMap_cons, List.flatMap_nil, List.append_nil]
  · intro rank' addr' hfind
    exact List.mem_append_left _ (h.cache rank' addr' hfind)

/-- What a scan finds, once the lines are what the servers posted. -/
theorem scan_addrFile {posts : List (Int × List Char)} {s : AddrState}
    (hfile : s.file = if posts = [] then none else some (addrFile posts))
    (hposts : ∀ post ∈ posts, Postable post) (rank : Int) :
    s.scan rank =
      if posts = [] ∨ s.freeStreams = 0 then none
      else some ({ s with freeStreams := s.freeStreams - 1 },
        (posts.find? fun post => decide (post.1 = rank)).map Prod.snd) := by
  obtain ⟨file, cache, free⟩ := s
  dsimp only at hfile
  by_cases hnil : posts = []
  · rw [if_pos hnil] at hfile
    simp only [AddrState.scan, hfile, hnil, true_or, if_true]
  · rw [if_neg hnil] at hfile
    cases free with
    | zero => simp only [AddrState.scan, or_true, if_true]
    | succ free =>
      have hfree : ¬ (posts = [] ∨ free + 1 = 0) := not_or.mpr ⟨hnil, Nat.succ_ne_zero free⟩
      rw [if_neg hfree]
      simp only [AddrState.scan, hfile, scanFor_addrFile hposts rank, Nat.add_sub_cancel]
      cases posts.find? fun post => decide (post.1 = rank) with
      | none => rfl
      | some post => rfl

/-- What a lookup leaves and gives. -/
inductive LookedUp (posts : List (Int × List Char)) (s : AddrState) (rank : Int) :
    AddrState → Resolved → Prop where
  | cached {addr : List Char} (hcached : s.addressCache.find? rank = some addr) :
      LookedUp posts s rank s (.cached addr)
  | scanned {addr : List Char} (hmiss : s.addressCache.find? rank = none)
      (hfree : 0 < s.freeStreams)
      (hfind : (posts.find? fun post => decide (post.1 = rank)) = some (rank, addr)) :
      LookedUp posts s rank
        { s with
          addressCache := s.addressCache.insert rank addr, freeStreams := s.freeStreams - 1 }
        (.scanned addr)
  | unresolved (hmiss : s.addressCache.find? rank = none) (hfree : 0 < s.freeStreams)
      (hfind : (posts.find? fun post => decide (post.1 = rank)) = none) :
      LookedUp posts s rank { s with freeStreams := s.freeStreams - 1 } .unresolved

theorem lookedUp_of_lookupAddr {posts : List (Int × List Char)} {s s' : AddrState} {o : Resolved}
    (hfile : s.file = if posts = [] then none else some (addrFile posts))
    (hposts : ∀ post ∈ posts, Postable post) {rank : Int}
    (hlookup : s.lookupAddr rank = some (s', o)) : LookedUp posts s rank s' o := by
  unfold AddrState.lookupAddr at hlookup
  split at hlookup
  · next hcached =>
    cases hlookup
    exact .cached hcached
  · next hmiss =>
    rw [scan_addrFile hfile hposts] at hlookup
    by_cases hstuck : posts = [] ∨ s.freeStreams = 0
    · simp only [hstuck, if_true] at hlookup
      cases hlookup
    · have hfree : 0 < s.freeStreams := Nat.pos_of_ne_zero (not_or.mp hstuck).2
      rcases hfind : posts.find? fun post => decide (post.1 = rank) with _ | ⟨svrRank, svrStr⟩
      · simp only [hstuck, if_false, hfind, Option.map_none] at hlookup
        cases hlookup
        exact .unresolved hmiss hfree hfind
      · simp only [hstuck, if_false, hfind, Option.map_some] at hlookup
        cases hlookup
        have hrank : svrRank = rank := by simpa using List.find?_some hfind
        subst hrank
        exact .scanned hmiss hfree hfind

/-- A lookup of the client, once the lines are what the servers posted. -/
theorem AddrInv.lookupAddr {posts : List (Int × List Char)} {s : AddrState}
    (h : AddrInv posts s) (hposts : PostsOk posts) {rank : Int} {s' : AddrState} {o : Resolved}
    (hlookup : s.lookupAddr rank = some (s', o)) : AddrInv posts s' := by
  cases lookedUp_of_lookupAddr h.file hposts.each hlookup with
  | cached => exact h
  | unresolved => exact ⟨h.file, h.cache⟩
  | scanned hmiss hfree hfind =>
    refine ⟨h.file, fun rank' addr' hcached => ?_⟩
    rw [OrdMap.find?_insert] at hcached
    split at hcached
    · next hsame =>
      cases hcached
      rw [hsame]
      exact List.mem_of_find?_eq_some hfind
    · exact h.cache rank' addr' hcached

theorem PostsOk.of_append {posts posts' : List (Int × List Char)} (h : PostsOk (posts ++ posts')) :
    PostsOk posts where
  distinct := h.distinct.sublist ((List.sublist_append_left posts posts').map Prod.fst)
  each post hmem := h.each post (List.mem_append_left _ hmem)

theorem AddrInv.run {labels : List AddrLabel} {posts : List (Int × List Char)} {s t : AddrState}
    {outs : List (Option Resolved)} (h : AddrInv posts s)
    (hposts : PostsOk (posts ++ postsOf labels))
    (hrun : addrMachine.run s labels = some (t, outs)) : AddrInv (posts ++ postsOf labels) t := by
  induction labels generalizing posts s outs with
  | nil =>
    cases hrun
    rwa [postsOf, List.filterMap_nil, List.append_nil]
  | cons l labels ih =>
    obtain ⟨s', o, outs', hstep, hrest, rfl⟩ := Machine.run_cons_eq_some_iff.mp hrun
    cases l with
    | listAddr rank addr =>
      have hsplit : posts ++ postsOf (.listAddr rank addr :: labels) =
          (posts ++ [(rank, addr)]) ++ postsOf labels := by
        rw [List.append_assoc]
        rfl
      rw [hsplit] at hposts ⊢
      cases hstep
      exact ih (h.listAddr rank addr) hposts hrest
    | lookup rank =>
      obtain ⟨⟨s₁, r⟩, hlookup, heq⟩ := Option.map_eq_some_iff.mp hstep
      cases heq
      exact ih (h.lookupAddr hposts.of_append hlookup) hposts hrest

/-- An address that is remembered stays. -/
theorem cached_of_step {rank : Int} {addr : List Char} {s s' : AddrState} {l : AddrLabel}
    {o : Option Resolved} (h : s.addressCache.find? rank = some addr)
    (hstep : addrMachine.step s l = some (s', o)) : s'.addressCache.find? rank = some addr := by
  cases l with
  | listAddr rank' addr' =>
    cases hstep
    exact h
  | lookup rank' =>
    obtain ⟨⟨s₁, r⟩, hlookup, heq⟩ := Option.map_eq_some_iff.mp hstep
    cases heq
    unfold AddrState.lookupAddr at hlookup
    split at hlookup
    · cases hlookup
      exact h
    · next hnone =>
      have hscan : ∀ t found, s.scan rank' = some (t, found) → t.addressCache = s.addressCache := by
        intro t found hscan
        unfold AddrState.scan at hscan
        split at hscan
        · split at hscan <;> cases hscan <;> rfl
        · cases hscan
      split at hlookup
      · cases hlookup
      · next hsome =>
        cases hlookup
        rw [hscan _ _ hsome]
        exact h
      · next hsome =>
        cases hlookup
        have hne : rank ≠ rank' := by
          rintro rfl
          rw [h] at hnone
          cases hnone
        rw [OrdMap.find?_insert_of_ne hne, hscan _ _ hsome]
        exact h

theorem step_lookup_cached {rank : Int} {addr : List Char} {s : AddrState}
    (h : s.addressCache.find? rank = some addr) :
    addrMachine.step s (.lookup rank) = some (s, some (.cached addr)) := by
  simp only [addrMachine, AddrState.lookupAddr, h, Option.map_some]

/-- The rank is in the cache, or there is a stream to scan the file with. -/
def AddrState.CanResolve (s : AddrState) (rank : Int) : Prop :=
  s.addressCache.find? rank ≠ none ∨ 0 < s.freeStreams

instance (s : AddrState) (rank : Int) : Decidable (s.CanResolve rank) :=
  inferInstanceAs (Decidable (_ ≠ _ ∨ _))

/-- A lookup of a rank that has posted. -/
theorem AddrInv.step_lookup {posts : List (Int × List Char)} {s : AddrState} (h : AddrInv posts s)
    (hposts : PostsOk posts) {rank : Int} {addr : List Char} (hmem : (rank, addr) ∈ posts)
    (hcan : s.CanResolve rank) :
    ∃ s' o, addrMachine.step s (.lookup rank) = some (s', some o) ∧ o.addr? = some addr ∧
      s'.addressCache.find? rank = some addr := by
  have hfind := find?_post hposts.distinct hmem
  rcases hcached : s.addressCache.find? rank with _ | addr'
  · have hfree : 0 < s.freeStreams := hcan.resolve_left fun hne => hne hcached
    have hstuck : ¬ (posts = [] ∨ s.freeStreams = 0) :=
      not_or.mpr ⟨List.ne_nil_of_mem hmem, hfree.ne'⟩
    refine ⟨{ s with
      addressCache := s.addressCache.insert rank addr, freeStreams := s.freeStreams - 1 },
      .scanned addr, ?_, rfl, OrdMap.find?_insert_self ..⟩
    simp only [addrMachine, AddrState.lookupAddr, hcached, scan_addrFile h.file hposts.each,
      hstuck, if_false, hfind, Option.map_some]
  · have hfind' := find?_post hposts.distinct (h.cache rank addr' hcached)
    rw [hfind] at hfind'
    cases hfind'
    exact ⟨s, .cached addr, step_lookup_cached hcached, rfl, hcached⟩

/-- Without a stream a rank that is not in the cache has no lookup. -/
theorem step_lookup_of_not_canResolve {s : AddrState} {rank : Int} (h : ¬ s.CanResolve rank) :
    addrMachine.step s (.lookup rank) = none := by
  obtain ⟨hcached, hfree⟩ := not_or.mp h
  rw [not_not] at hcached
  have hzero : s.freeStreams = 0 := Nat.eq_zero_of_not_pos hfree
  have hscan : s.scan rank = none := by
    unfold AddrState.scan
    rw [hzero]
    split
    · next hsucc => cases hsucc
    · rfl
  simp only [addrMachine, AddrState.lookupAddr, hcached, hscan, Option.map_none]

/-- Each lookup past the cache takes one stream for good. -/
def Resolved.opens : Option Resolved → Bool
  | some (.scanned _) => true
  | some .unresolved => true
  | _ => false

theorem freeStreams_run {labels : List AddrLabel} {posts : List (Int × List Char)}
    {s t : AddrState} {outs : List (Option Resolved)} (h : AddrInv posts s)
    (hposts : PostsOk (posts ++ postsOf labels))
    (hrun : addrMachine.run s labels = some (t, outs)) :
    t.freeStreams + outs.countP Resolved.opens = s.freeStreams := by
  induction labels generalizing posts s outs with
  | nil =>
    cases hrun
    rfl
  | cons l labels ih =>
    obtain ⟨s', o, outs', hstep, hrest, rfl⟩ := Machine.run_cons_eq_some_iff.mp hrun
    rw [List.countP_cons]
    cases l with
    | listAddr rank addr =>
      have hsplit : posts ++ postsOf (.listAddr rank addr :: labels) =
          (posts ++ [(rank, addr)]) ++ postsOf labels := by
        rw [List.append_assoc]
        rfl
      rw [hsplit] at hposts
      cases hstep
      have hrest := ih (h.listAddr rank addr) hposts hrest
      exact hrest
    | lookup rank =>
      obtain ⟨⟨s₁, r⟩, hlookup, heq⟩ := Option.map_eq_some_iff.mp hstep
      cases heq
      have hlater := ih (h.lookupAddr hposts.of_append hlookup) hposts hrest
      cases lookedUp_of_lookupAddr h.file hposts.of_append.each hlookup with
      | cached => exact hlater
      | scanned hmiss hfree hfind | unresolved hmiss hfree hfind =>
        dsimp only at hlater
        simp only [Resolved.opens, if_true]
        omega

theorem addrInv_start (streams : Nat) : AddrInv [] (AddrState.start streams) where
  file := rfl
  cache _ _ hfind := nomatch hfind

/-- **The round trip.**  After any appends and lookups in any order, a rank that has
    posted resolves to the address it posted, and after any further ones to the same
    address out of the cache, if and only if it is in the cache or a stream is left. -/
theorem lookup_resolves_iff {streams : Nat} {labels : List AddrLabel}
    (hposts : PostsOk (postsOf labels)) {s : AddrState} {outs : List (Option Resolved)}
    (hrun : addrMachine.run (.start streams) labels = some (s, outs)) {rank : Int}
    {addr : List Char} (hmem : (rank, addr) ∈ postsOf labels) :
    (∃ s' o, addrMachine.step s (.lookup rank) = some (s', some o) ∧ o.addr? = some addr ∧
      ∀ later t outs', addrMachine.run s' later = some (t, outs') →
        addrMachine.step t (.lookup rank) = some (t, some (.cached addr))) ↔
      s.CanResolve rank := by
  constructor
  · rintro ⟨s', o, hstep, -, -⟩
    by_contra hstuck
    rw [step_lookup_of_not_canResolve hstuck] at hstep
    cases hstep
  · intro hcan
    have hinv : AddrInv (postsOf labels) s := (addrInv_start streams).run hposts hrun
    obtain ⟨s', o, hstep, haddr, hcached⟩ := hinv.step_lookup hposts hmem hcan
    refine ⟨s', o, hstep, haddr, ?_⟩
    intro later t outs' hlater
    apply step_lookup_cached
    exact Machine.run_of_step (fun s i s' o h => cached_of_step h) hcached hlater

/-- Two servers, one with a negative rank, and an address that starts with digits. -/
def twoPosts : List AddrLabel :=
  [.listAddr 1 "10.0.0.1:42".toList, .listAddr (-2) "na+tcp://b:1".toList]

theorem postsOk_twoPosts : PostsOk (postsOf twoPosts) where
  distinct := by decide
  each post hmem := by
    have hcases : post = (1, "10.0.0.1:42".toList) ∨ post = (-2, "na+tcp://b:1".toList) := by
      simpa only [postsOf, twoPosts, List.filterMap_cons, List.filterMap_nil, List.mem_cons,
        List.not_mem_nil, or_false] using hmem
    rcases hcases with rfl | rfl
    · exact ⟨by decide, by decide, by simp [isSpace], by simp [PATH_MAX]⟩
    · exact ⟨by decide, by decide, by simp [isSpace], by simp [PATH_MAX]⟩

/-- Looks for a rank that has not posted take one stream each. -/
theorem AddrInv.run_unposted {posts : List (Int × List Char)} {s : AddrState} (h : AddrInv posts s)
    (hposts : ∀ post ∈ posts, Postable post) (hne : posts ≠ []) (rank : Int)
    (hfind : (posts.find? fun post => decide (post.1 = rank)) = none)
    (hmiss : s.addressCache.find? rank = none) (n : Nat) (hn : n ≤ s.freeStreams) :
    addrMachine.run s (List.replicate n (.lookup rank)) =
      some ({ s with freeStreams := s.freeStreams - n },
        List.replicate n (some .unresolved)) := by
  induction n generalizing s with
  | zero => rfl
  | succ n ih =>
    have hstuck : ¬ (posts = [] ∨ s.freeStreams = 0) := not_or.mpr ⟨hne, by omega⟩
    have hstep : addrMachine.step s (.lookup rank) =
        some ({ s with freeStreams := s.freeStreams - 1 }, some .unresolved) := by
      simp only [addrMachine, AddrState.lookupAddr, hmiss, scan_addrFile h.file hposts, hstuck,
        if_false, hfind, Option.map_none, Option.map_some]
    have hn' : n ≤ s.freeStreams - 1 := by omega
    have hrest := @ih { s with freeStreams := s.freeStreams - 1 } ⟨h.file, h.cache⟩ hmiss hn'
    rw [List.replicate_succ, List.replicate_succ, Nat.add_comm n 1, ← Nat.sub_sub]
    exact Machine.run_cons_eq_some_iff.mpr ⟨_, _, _, hstep, hrest, rfl⟩

/-- Rank 7 has not posted, and the look for it takes one of two streams. -/
theorem lookup_resolves_iff_two :
    ∃ s outs, addrMachine.run (.start 2) (twoPosts ++ List.replicate 1 (.lookup 7)) =
        some (s, outs) ∧
      ((∃ s' o, addrMachine.step s (.lookup (-2)) = some (s', some o) ∧
        o.addr? = some "na+tcp://b:1".toList ∧
        ∀ later t outs', addrMachine.run s' later = some (t, outs') →
          addrMachine.step t (.lookup (-2)) = some (t, some (.cached "na+tcp://b:1".toList))) ↔
        s.CanResolve (-2)) := by
  have hinv : AddrInv (postsOf twoPosts) ⟨some (addrFile (postsOf twoPosts)), OrdMap.empty, 2⟩ :=
    ⟨rfl, fun _ _ hfind => by cases hfind⟩
  have hposted : addrMachine.run (.start 2) twoPosts =
      some (⟨some (addrFile (postsOf twoPosts)), OrdMap.empty, 2⟩, [none, none]) := rfl
  have hlooked :=
    hinv.run_unposted postsOk_twoPosts.each (by decide) 7 (by decide) rfl 1 (by decide)
  have hrun := Machine.run_append_eq_some hposted hlooked
  have hposts : PostsOk (postsOf (twoPosts ++ List.replicate 1 (.lookup 7))) := postsOk_twoPosts
  exact ⟨_, _, hrun, lookup_resolves_iff hposts hrun (by decide)⟩

/-- One rank posts, and then another one is looked for as often as there are streams. -/
def lookedForInVain (streams : Nat) : List AddrLabel :=
  [.listAddr 0 ['a']] ++ List.replicate streams (.lookup 1)

theorem postsOf_lookedForInVain (streams : Nat) :
    postsOf (lookedForInVain streams) = [(0, ['a'])] := by
  have hlookups : postsOf (List.replicate streams (.lookup 1)) = [] := by
    apply postsOf_eq_nil
    intro l hl
    rw [List.eq_of_mem_replicate hl]
    rfl
  rw [postsOf] at hlookups ⊢
  rw [lookedForInVain, List.filterMap_append, hlookups]
  rfl

/-- With room for 1020 streams, that many looks for a rank that has not posted leave
    none for one that has. -/
theorem lookup_without_stream :
    PostsOk (postsOf (lookedForInVain 1020)) ∧ (0, ['a']) ∈ postsOf (lookedForInVain 1020) ∧
      ∃ s outs, addrMachine.run (.start 1020) (lookedForInVain 1020) = some (s, outs) ∧
        ¬ ∃ s' o, addrMachine.step s (.lookup 0) = some (s', some o) ∧ o.addr? = some ['a'] := by
  have hpost : Postable (0, ['a']) :=
    ⟨by decide, List.cons_ne_nil _ _, by simp [isSpace], by simp [PATH_MAX]⟩
  have heach : ∀ post ∈ [((0 : Int), ['a'])], Postable post := by
    intro post hmem
    rw [List.mem_singleton.mp hmem]
    exact hpost
  have hinv : AddrInv [(0, ['a'])] ⟨some (addrFile [(0, ['a'])]), OrdMap.empty, 1020⟩ :=
    ⟨rfl, fun _ _ hfind => by cases hfind⟩
  have hposted : addrMachine.run (.start 1020) [.listAddr 0 ['a']] =
      some (⟨some (addrFile [(0, ['a'])]), OrdMap.empty, 1020⟩, [none]) := rfl
  have hlooked := hinv.run_unposted heach (by decide) 1 (by decide) rfl 1020 le_rfl
  rw [postsOf_lookedForInVain]
  refine ⟨⟨by decide, heach⟩, List.mem_singleton_self _, _, _,
    Machine.run_append_eq_some hposted hlooked, ?_⟩
  rintro ⟨s', o, hstep, -⟩
  rw [step_lookup_of_not_canResolve (by decide)] at hstep
  cases hstep

/-! ### The cache -/

/-- The client without its cache. -/
def scanMachine : Machine AddrState AddrLabel (Option (Option (List Char))) where
  step s l :=
    match l with
    | .listAddr rank addr =>
        some ({ s with file := some (s.file.getD [] ++ addrLine rank addr) }, none)
    | .lookup rank => (s.scan rank).map fun r => (r.1, some r.2)

def PostsLine : AddrLabel → Prop
  | .listAddr rank addr => Postable (rank, addr)
  | .lookup _ => True

/-- The cache holds first lines of the file. -/
structure FirstLines (posts : List (Int × List Char)) (s : AddrState) : Prop where
  inv : AddrInv posts s
  each : ∀ post ∈ posts, Postable post
  first : ∀ rank addr, s.addressCache.find? rank = some addr →
    (posts.find? fun post => decide (post.1 = rank)) = some (rank, addr)

namespace FirstLines

variable {posts : List (Int × List Char)} {s : AddrState}

/-- A line that is appended is not the first one of a rank that has one. -/
theorem listAddr (h : FirstLines posts s) {rank : Int} {addr : List Char}
    (hpost : Postable (rank, addr)) :
    FirstLines (posts ++ [(rank, addr)])
      { s with file := some (s.file.getD [] ++ addrLine rank addr) } where
  inv := h.inv.listAddr rank addr
  each post hmem := by
    rcases List.mem_append.mp hmem with hmem | hmem
    · exact h.each post hmem
    · rw [List.mem_singleton.mp hmem]
      exact hpost
  first rank' addr' hcached := by
    rw [List.find?_append, h.first rank' addr' hcached]
    rfl

theorem setStreams (h : FirstLines posts s) (free : Nat) :
    FirstLines posts { s with freeStreams := free } :=
  ⟨⟨h.inv.file, h.inv.cache⟩, h.each, h.first⟩

theorem insert (h : FirstLines posts s) {rank : Int} {addr : List Char}
    (hfind : (posts.find? fun post => decide (post.1 = rank)) = some (rank, addr)) :
    FirstLines posts { s with addressCache := s.addressCache.insert rank addr } where
  inv := by
    refine ⟨h.inv.file, fun rank' addr' hcached => ?_⟩
    rw [OrdMap.find?_insert] at hcached
    split at hcached
    · next hsame =>
      cases hcached
      rw [hsame]
      exact List.mem_of_find?_eq_some hfind
    · exact h.inv.cache rank' addr' hcached
  each := h.each
  first rank' addr' hcached := by
    rw [OrdMap.find?_insert] at hcached
    split at hcached
    · next hsame =>
      cases hcached
      rw [hsame]
      exact hfind
    · exact h.first rank' addr' hcached

end FirstLines

/-- The client and the one without its cache, which has no more streams than it and
    enough of them for the lookups to come. -/
structure CacheAlike (labels : List AddrLabel) (s t : AddrState) : Prop where
  lines : ∃ posts, FirstLines posts s
  file : t.file = s.file
  streams : t.freeStreams ≤ s.freeStreams
  enough : labels.countP AddrLabel.isLookup ≤ t.freeStreams
  posts : ∀ l ∈ labels, PostsLine l

namespace CacheAlike

variable {labels : List AddrLabel} {s t : AddrState}

theorem listAddr {rank : Int} {addr : List Char}
    (h : CacheAlike (.listAddr rank addr :: labels) s t) :
    CacheAlike labels { s with file := some (s.file.getD [] ++ addrLine rank addr) }
      { t with file := some (t.file.getD [] ++ addrLine rank addr) } where
  lines := by
    obtain ⟨posts, hlines⟩ := h.lines
    exact ⟨_, hlines.listAddr (h.posts _ List.mem_cons_self)⟩
  file := by rw [h.file]
  streams := h.streams
  enough := h.enough
  posts l hl := h.posts l (List.mem_cons_of_mem _ hl)

/-- A lookup takes a stream where there is no cache, and at most one where there is. -/
theorem lookup {rank : Int} (h : CacheAlike (.lookup rank :: labels) s t) :
    0 < t.freeStreams ∧ 0 < s.freeStreams ∧
      ∀ s' : AddrState, (∃ posts, FirstLines posts s') → s'.file = s.file →
        s.freeStreams - 1 ≤ s'.freeStreams →
        CacheAlike labels s' { t with freeStreams := t.freeStreams - 1 } := by
  have henough := h.enough
  have hstreams := h.streams
  rw [List.countP_cons_of_pos rfl] at henough
  refine ⟨by omega, by omega, fun s' hlines hfile hfree => ⟨hlines, ?_, ?_, ?_, ?_⟩⟩
  · rw [hfile]
    exact h.file
  · dsimp only
    omega
  · dsimp only
    omega
  · exact fun l hl => h.posts l (List.mem_cons_of_mem _ hl)

/-- A step of the client and the same step without its cache. -/
theorem step {l : AddrLabel} (h : CacheAlike (l :: labels) s t) :
    (addrMachine.step s l = none ∧ scanMachine.step t l = none) ∨
      ∃ s' o t', addrMachine.step s l = some (s', o) ∧
        scanMachine.step t l = some (t', o.map Resolved.addr?) ∧ CacheAlike labels s' t' := by
  cases l with
  | listAddr rank addr => exact .inr ⟨_, _, _, rfl, rfl, h.listAddr⟩
  | lookup rank =>
    obtain ⟨posts, hlines⟩ := h.lines
    obtain ⟨hfree, hfree', hnext⟩ := h.lookup
    have hfile := hlines.inv.file
    have hscan := scan_addrFile hfile hlines.each rank
    have hscan' := scan_addrFile (h.file.trans hfile) hlines.each rank
    by_cases hnil : posts = []
    · subst hnil
      have hmiss : s.addressCache.find? rank = none := by
        refine Option.eq_none_iff_forall_ne_some.mpr fun addr hcached => ?_
        exact absurd (hlines.inv.cache rank addr hcached) List.not_mem_nil
      simp only [true_or, if_true] at hscan hscan'
      refine .inl ⟨?_, ?_⟩
      · simp only [addrMachine, AddrState.lookupAddr, hmiss, hscan, Option.map_none]
      · simp only [scanMachine, hscan', Option.map_none]
    · rw [if_neg (not_or.mpr ⟨hnil, hfree'.ne'⟩)] at hscan
      rw [if_neg (not_or.mpr ⟨hnil, hfree.ne'⟩)] at hscan'
      refine .inr ?_
      cases hcached : s.addressCache.find? rank with
      | some addr =>
        rw [hlines.first rank addr hcached] at hscan'
        refine ⟨s, some (.cached addr), _, step_lookup_cached hcached, ?_,
          hnext s ⟨posts, hlines⟩ rfl (Nat.sub_le ..)⟩
        simp only [scanMachine, hscan', Option.map_some, Resolved.addr?]
      | none =>
        cases hfind : posts.find? fun post => decide (post.1 = rank) with
        | none =>
          rw [hfind] at hscan hscan'
          refine ⟨{ s with freeStreams := s.freeStreams - 1 }, some .unresolved, _, ?_, ?_,
            hnext _ ⟨posts, hlines.setStreams _⟩ rfl le_rfl⟩
          · simp only [addrMachine, AddrState.lookupAddr, hcached, hscan, Option.map_none,
              Option.map_some]
          · simp only [scanMachine, hscan', Option.map_none, Option.map_some, Resolved.addr?]
        | some post =>
          obtain ⟨svrRank, svrStr⟩ := post
          have hrank : svrRank = rank := by simpa using List.find?_some hfind
          subst hrank
          rw [hfind] at hscan hscan'
          refine ⟨{ s with
            addressCache := s.addressCache.insert svrRank svrStr
            freeStreams := s.freeStreams - 1 }, some (.scanned svrStr), _, ?_, ?_,
            hnext _ ⟨posts, (hlines.insert hfind).setStreams _⟩ rfl le_rfl⟩
          · simp only [addrMachine, AddrState.lookupAddr, hcached, hscan, Option.map_some]
          · simp only [scanMachine, hscan', Option.map_some, Resolved.addr?]

end CacheAlike

theorem firstLines_start (streams : Nat) : FirstLines [] (AddrState.start streams) where
  inv := addrInv_start streams
  each _ hmem := nomatch hmem
  first _ _ hfind := nomatch hfind

/-- **Appends and lookups in any order, also of ranks that post again, give the same
    addresses with the cache and without it**, as long as no more lookups are made than
    the client without the cache has streams for. -/
theorem cache_transparent {streams : Nat} {labels : List AddrLabel}
    (hposts : ∀ l ∈ labels, PostsLine l) (hstreams : labels.countP AddrLabel.isLookup ≤ streams) :
    (addrMachine.run (.start streams) labels).map (fun r => r.2.map (Option.map Resolved.addr?)) =
      (scanMachine.run (.start streams) labels).map Prod.snd := by
  refine Machine.map_run_eq (R := CacheAlike) (fun l rest s t h => h.step) ?_
  exact ⟨⟨[], firstLines_start streams⟩, rfl, le_rfl, hstreams, hposts⟩

theorem postable_singleton {c : Char} (hc : isSpace c = false) : Postable (0, [c]) where
  rank := (by decide : IsInt32 0)
  nonempty := List.cons_ne_nil _ _
  token _ hmem := List.mem_singleton.mp hmem ▸ hc
  length := by simp [PATH_MAX]

/-- A server that posts again is not seen again. -/
def postsTwice : List AddrLabel := [.listAddr 0 ['a'], .lookup 0, .listAddr 0 ['b'], .lookup 0]

theorem cache_transparent_again :
    (addrMachine.run (.start 2) postsTwice).map (fun r => r.2.map (Option.map Resolved.addr?)) =
      (scanMachine.run (.start 2) postsTwice).map Prod.snd := by
  refine cache_transparent ?_ (by decide)
  intro l hmem
  simp only [postsTwice, List.mem_cons, List.not_mem_nil, or_false] at hmem
  rcases hmem with rfl | rfl | rfl | rfl
  · exact postable_singleton (by decide)
  · trivial
  · exact postable_singleton (by decide)
  · trivial

end Hvac
