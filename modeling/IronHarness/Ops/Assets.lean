import IronHarness.Lib.Bytes
import IronHarness.Lib.Flow
import Mathlib.Data.Fintype.Basic
import Mathlib.Data.Fintype.Sets
import Mathlib.Data.List.DropRight
import Mathlib.Logic.Function.Basic

/-!
# The asset cache

`resolve_asset` (ironbench/ops_assets.py): an asset of a task is a file beside it, or is downloaded once into a cache
whose file names have the first digits of the pinned hash.  Any number of resolvers work on one cache, step by step, and
any of them may die or fail at any step.  `sha256` and what `urllib.parse` and `ipaddress` say of an address are
parameters; of the digests it is used that no `-` is in them.  Where no two write one file at a time, a cached file has the
digits that its name says, and what a resolver returns has the pinned hash (`cache_is_pinned`); a file that is there is
not downloaded again (`Warm.act`).
-/

namespace IronHarness.Ops

open ByteText Runs

abbrev Chars := List Char

/-! ### The URL check -/

/-- `urlsplit(url)` -/
structure SplitUrl where
  scheme : Chars
  netloc : Chars
  path : Chars
  hostname : Option Chars

/-- An address of `getaddrinfo`, as `ipaddress` sees it; `metadata` is 169.254.169.254. -/
structure Ip where
  metadata : Bool
  linkLocal : Bool
  multicast : Bool
  isPrivate : Bool
  loopback : Bool
  unspecified : Bool

inductive UrlError
  | fileUrl
  | notHttps
  | noHost
  | metadataHost (host : Chars)
  | unresolved (host : Chars)
  | blocked (host : Chars)
  | notPublic (host : Chars)
  deriving DecidableEq

/-- The loop over the addresses. -/
def checkIps (host : Chars) : List Ip → Except UrlError Unit
  | [] => .ok ()
  | ip :: ips =>
    if ip.metadata || ip.linkLocal || ip.multicast then .error (.blocked host)
    else if ip.isPrivate || ip.loopback || ip.unspecified then .error (.notPublic host)
    else checkIps host ips

/-- `validate_asset_url`; the host resolves to `infos`, or not at all. -/
def validateAssetUrl (lower : Chars → Chars) (parts : SplitUrl) (infos : Option (List Ip)) : Except UrlError Unit :=
  if parts.scheme = "file".toList then
    if (parts.netloc ≠ [] ∧ parts.netloc ≠ "localhost".toList) ∨ parts.path.head? ≠ some '/' then .error .fileUrl
    else .ok ()
  else if parts.scheme ≠ "https".toList then .error .notHttps
  else
    let host := (parts.hostname.getD []).rdropWhile (· = '.')
    if host = [] then .error .noHost
    else if lower host = "metadata.google.internal".toList ∨ lower host = "metadata".toList then .error (.metadataHost host)
    else
      match infos with
      | none => .error (.unresolved host)
      | some infos => checkIps host infos

/-! ### The cache -/

/-- What the loader guarantees of a url asset. -/
structure UrlAsset where
  name : Chars
  url : Chars
  sha256 : Chars
  sha256_length : sha256.length = 64

/-- `f"{asset.name}-{asset.sha256[:16]}"` -/
def UrlAsset.target (a : UrlAsset) : Chars := a.name ++ '-' :: a.sha256.take 16

/-- `target.name + ".part"` -/
def UrlAsset.part (a : UrlAsset) : Chars := a.target ++ ".part".toList

def maxDownloadBytes : Nat := 64 * 1024 * 1024

/-- What the environment contributes: `urlsplit`, `str.lower`, `str.startswith("file://")` on the url, and `hashlib.sha256`. -/
structure Host where
  urlsplit : Chars → SplitUrl
  lower : Chars → Chars
  sha256 : Bytes → Chars

def isFileUrl (url : Chars) : Bool := "file://".toList.isPrefixOf url

/-- Where a resolver is; a `write` has put `front` into the partial file and has `rest` to go. -/
inductive Resolving
  | idle
  | validate (a : UrlAsset)
  | look (a : UrlAsset)
  | verify (a : UrlAsset)
  | fetch (a : UrlAsset)
  | create (a : UrlAsset) (data : Bytes)
  | write (a : UrlAsset) (front rest : Bytes)
  | replace (a : UrlAsset) (data : Bytes)

variable {τ : Type}

structure Cache (τ : Type) where
  files : Chars → Option Bytes
  pcs : τ → Resolving

/-- What a step meets: the addresses of the host, the bytes of the download, the number of bytes that a `write` puts into
the file, and `done` for the rest; any step of the files and of the network may raise. -/
inductive Outcome
  | done
  | resolved (infos : Option (List Ip))
  | body (data : Bytes)
  | wrote (n : Nat)
  | raises

inductive Work (τ : Type)
  | call (t : τ) (a : UrlAsset)
  | step (t : τ) (o : Outcome)
  | dies (t : τ)

section

variable [DecidableEq τ] (host : Host)

def Cache.goto (c : Cache τ) (t : τ) (pc : Resolving) : Cache τ := { c with pcs := Function.update c.pcs t pc }

def Cache.put (c : Cache τ) (file : Chars) (data : Option Bytes) : Cache τ :=
  { c with files := Function.update c.files file data }

private theorem goto_self (c : Cache τ) (t : τ) (pc : Resolving) :
    (c.goto t pc).pcs t = pc := Function.update_self _ _ _

private theorem goto_other (c : Cache τ) {t u : τ} (h : u ≠ t) (pc : Resolving) : (c.goto t pc).pcs u = c.pcs u :=
  Function.update_of_ne h _ _

omit [DecidableEq τ] in
private theorem put_self (c : Cache τ) (file : Chars) (data : Option Bytes) : (c.put file data).files file = data :=
  Function.update_self _ _ _

omit [DecidableEq τ] in
private theorem put_other (c : Cache τ) {file other : Chars} (h : other ≠ file) (data : Option Bytes) :
    (c.put file data).files other = c.files other := Function.update_of_ne h _ _

/-- The bytes that the download gave, against the cap and the pin. -/
def accepted (a : UrlAsset) (data : Bytes) : Bool :=
  (isFileUrl a.url || data.length ≤ maxDownloadBytes) && (host.sha256 data = a.sha256)

def Cache.next (c : Cache τ) (t : τ) (o : Outcome) : Option (Cache τ) :=
  match c.pcs t, o with
  | .validate a, .resolved infos =>
    match validateAssetUrl host.lower (host.urlsplit a.url) infos with
    | .error _ => some (c.goto t .idle)
    | .ok () => some (c.goto t (.look a))
  | .look a, .done => some (c.goto t (if (c.files a.target).isSome then .verify a else .fetch a))
  | .verify _, .done => some (c.goto t .idle)
  | .fetch a, .body data => some (c.goto t (if accepted host a data then .create a data else .idle))
  | .create a data, .done => some ((c.goto t (.write a [] data)).put a.part (some []))
  | .write a front [], .done => some (c.goto t (.replace a front))
  | .write a front rest, .wrote n =>
    some ((c.goto t (.write a (front ++ rest.take n) (rest.drop n))).put a.part
      ((c.files a.part).map (· ++ rest.take n)))
  | .replace a _, .done =>
    match c.files a.part with
    | none => some (c.goto t .idle)
    | some data => some (((c.goto t .idle).put a.part none).put a.target (some data))
  | .idle, _ => none
  | _, .raises => some (c.goto t .idle)
  | _, _ => none

def Cache.act (c : Cache τ) : Work τ → Option (Cache τ)
  | .call t a =>
    match c.pcs t with
    | .idle => some (c.goto t (.validate a))
    | _ => none
  | .step t o => c.next host t o
  | .dies t => some (c.goto t .idle)

/-- A resolver returns the path of its asset; with what is in the file. -/
def returned (c : Cache τ) : Work τ → Option (UrlAsset × Bytes)
  | .step t .done =>
    match c.pcs t with
    | .verify a => ((c.files a.target).filter fun data => host.sha256 data = a.sha256).map (Prod.mk a)
    | .replace a _ => (c.files a.part).map (Prod.mk a)
    | _ => none
  | _ => none

/-- A resolver downloads. -/
def fetched (c : Cache τ) : Work τ → Option UrlAsset
  | .step t (.body _) =>
    match c.pcs t with
    | .fetch a => some a
    | _ => none
  | _ => none

end

/-! ### File names -/

private theorem length_take_sha (a : UrlAsset) : (a.sha256.take 16).length = 16 := by
  rw [List.length_take, a.sha256_length]
  rfl

/-- A name and the digits behind it are read off the target. -/
private theorem target_inj {a b : UrlAsset} (h : a.target = b.target) :
    a.name = b.name ∧ a.sha256.take 16 = b.sha256.take 16 := by
  have hlen : ('-' :: a.sha256.take 16).length = ('-' :: b.sha256.take 16).length := by
    rw [List.length_cons, List.length_cons, length_take_sha, length_take_sha]
  obtain ⟨hname, hrest⟩ := List.append_inj' h hlen
  exact ⟨hname, (List.cons.inj hrest).2⟩

private theorem part_inj {a b : UrlAsset} (h : a.part = b.part) : a.target = b.target :=
  List.append_cancel_right h

/-- The place of the `-` in a target is a digit in the name of a partial file. -/
private theorem part_ne_target {a b : UrlAsset} (hpin : '-' ∉ a.sha256) : a.part ≠ b.target := by
  intro h
  have hsplit : a.part = (a.name ++ '-' :: a.sha256.take 4) ++ (a.sha256.take 16).drop 4 ++ ".part".toList := by
    have htake : a.sha256.take 4 ++ (a.sha256.take 16).drop 4 = a.sha256.take 16 := by
      have hfour : a.sha256.take 4 = (a.sha256.take 16).take 4 := by rw [List.take_take]; rfl
      rw [hfour, List.take_append_drop]
    rw [UrlAsset.part, UrlAsset.target]
    conv_lhs => rw [← htake]
    simp
  obtain ⟨x, rest, hrest, hx⟩ : ∃ x rest, (a.sha256.take 16).drop 4 = x :: rest ∧ x ∈ a.sha256 := by
    have hlen : ((a.sha256.take 16).drop 4).length = 12 := by rw [List.length_drop, length_take_sha]
    cases hdrop : (a.sha256.take 16).drop 4 with
    | nil =>
      rw [hdrop] at hlen
      cases hlen
    | cons x rest =>
      have hmem : x ∈ (a.sha256.take 16).drop 4 := hdrop ▸ List.mem_cons_self
      exact ⟨x, rest, rfl, List.mem_of_mem_take (List.mem_of_mem_drop hmem)⟩
  rw [hsplit, hrest, UrlAsset.target, List.append_assoc, List.cons_append] at h
  have hlen : (x :: (rest ++ ".part".toList)).length = ('-' :: b.sha256.take 16).length := by
    have hwhole := congrArg List.length hrest
    rw [List.length_drop, length_take_sha, List.length_cons] at hwhole
    have hdot : (".part".toList).length = 5 := rfl
    rw [List.length_cons, List.length_cons, length_take_sha, List.length_append, hdot]
    omega
  obtain ⟨-, hdash⟩ := List.append_inj' h hlen
  have hxdash : x = '-' := (List.cons.inj hdash).1
  exact hpin (hxdash ▸ hx)

/-! ### What is kept -/

/-- The bytes that a resolver has downloaded and accepted. -/
def Resolving.data : Resolving → Option (UrlAsset × Bytes)
  | .create a data => some (a, data)
  | .write a front rest => some (a, front ++ rest)
  | .replace a data => some (a, data)
  | _ => none

/-- What a resolver that writes has put into its partial file. -/
def Resolving.held : Resolving → Option (UrlAsset × Bytes)
  | .write a front _ => some (a, front)
  | .replace a data => some (a, data)
  | _ => none

/-- The resolver writes the partial file of the asset. -/
def Resolving.writes (a : UrlAsset) (pc : Resolving) : Bool := pc.held.any fun x => x.1.target = a.target

def Resolving.creates : Resolving → Option UrlAsset
  | .create a _ => some a
  | _ => none

/-- A resolver begins to write only where no other writes the same file. -/
def Alone (c : Cache τ) : Work τ → Prop
  | .step t .done => ∀ a ∈ (c.pcs t).creates, ∀ u, (c.pcs u).writes a = false
  | _ => True

instance [Fintype τ] (c : Cache τ) : ∀ w : Work τ, Decidable (Alone c w)
  | .step t .done => inferInstanceAs (Decidable (∀ a ∈ (c.pcs t).creates, ∀ u, (c.pcs u).writes a = false))
  | .step _ (.resolved _) | .step _ (.body _) | .step _ (.wrote _) | .step _ .raises => isTrue trivial
  | .call _ _ => isTrue trivial
  | .dies _ => isTrue trivial

structure Kept (host : Host) (c : Cache τ) : Prop where
  pinned : ∀ (a : UrlAsset) d, c.files a.target = some d → (host.sha256 d).take 16 = a.sha256.take 16
  data : ∀ t a d, (c.pcs t).data = some (a, d) → host.sha256 d = a.sha256
  held : ∀ t a x, (c.pcs t).held = some (a, x) → c.files a.part = some x
  alone : ∀ t u a b x y, (c.pcs t).held = some (a, x) → (c.pcs u).held = some (b, y) → a.target = b.target → t = u

private theorem data_of_held {pc : Resolving} {a : UrlAsset} {x : Bytes} (h : pc.held = some (a, x)) :
    ∃ d, pc.data = some (a, d) := by
  cases pc with
  | write b front rest =>
    cases h
    exact ⟨x ++ rest, rfl⟩
  | replace b data =>
    cases h
    exact ⟨x, rfl⟩
  | _ => cases h

section

variable [DecidableEq τ] {host : Host} {c c' : Cache τ} {t : τ}

omit [DecidableEq τ] in
private theorem Kept.no_dash (h : Kept host c) (hdigest : ∀ d, '-' ∉ host.sha256 d) {a : UrlAsset} {d : Bytes}
    (hdata : (c.pcs t).data = some (a, d)) : '-' ∉ a.sha256 := by
  rw [← h.data t a d hdata]
  exact hdigest d

/-- A step that moves its thread and leaves the files. -/
theorem Kept.goto (h : Kept host c) {pc : Resolving} (hdata : ∀ a d, pc.data = some (a, d) → host.sha256 d = a.sha256)
    (hheld : ∀ a x, pc.held = some (a, x) → (c.pcs t).held = some (a, x)) : Kept host (c.goto t pc) := by
  have hwas : ∀ u a x, ((c.goto t pc).pcs u).held = some (a, x) → (c.pcs u).held = some (a, x) := by
    intro u a x hu
    by_cases hut : u = t
    · subst hut
      rw [goto_self] at hu
      exact hheld a x hu
    · rw [goto_other c hut] at hu
      exact hu
  refine ⟨h.pinned, ?_, fun u a x hu => h.held u a x (hwas u a x hu),
    fun u v a b x y hu hv => h.alone u v a b x y (hwas u a x hu) (hwas v b y hv)⟩
  intro u a d hu
  by_cases hut : u = t
  · subst hut
    rw [goto_self] at hu
    exact hdata a d hu
  · rw [goto_other c hut] at hu
    exact h.data u a d hu

private theorem Kept.goto_free (h : Kept host c) {pc : Resolving} (hnone : pc.data = none) :
    Kept host (c.goto t pc) := by
  refine h.goto ?_ ?_
  · intro a d hdata
    rw [hnone] at hdata
    cases hdata
  · intro a x hheld
    obtain ⟨d, hdata⟩ := data_of_held hheld
    rw [hnone] at hdata
    cases hdata

/-- A step of the one resolver that writes a partial file. -/
theorem Kept.write (h : Kept host c) (hdigest : ∀ d, '-' ∉ host.sha256 d) {a : UrlAsset} {d x : Bytes} {pc : Resolving}
    (hdata : pc.data = some (a, d)) (hd : host.sha256 d = a.sha256) (hheld : pc.held = some (a, x))
    (hothers : ∀ u ≠ t, ∀ b y, (c.pcs u).held = some (b, y) → b.target ≠ a.target) :
    Kept host ((c.goto t pc).put a.part (some x)) := by
  have hdash : '-' ∉ a.sha256 := hd ▸ hdigest d
  have hwho : ∀ u b y, ((c.goto t pc).pcs u).held = some (b, y) →
      (u = t ∧ b = a ∧ y = x) ∨ (u ≠ t ∧ (c.pcs u).held = some (b, y)) := by
    intro u b y hu
    by_cases hut : u = t
    · subst hut
      rw [goto_self, hheld] at hu
      cases hu
      exact .inl ⟨rfl, rfl, rfl⟩
    · rw [goto_other c hut] at hu
      exact .inr ⟨hut, hu⟩
  constructor
  · intro b d' hb
    have hne : b.target ≠ a.part := fun heq => part_ne_target hdash heq.symm
    rw [put_other _ hne] at hb
    exact h.pinned b d' hb
  · intro u b d' hu
    by_cases hut : u = t
    · subst hut
      have hpc : ((c.goto u pc).pcs u).data = pc.data := by rw [goto_self]
      rw [show ((c.goto u pc).put a.part (some x)).pcs u = (c.goto u pc).pcs u from rfl, hpc, hdata] at hu
      cases hu
      exact hd
    · rw [show ((c.goto t pc).put a.part (some x)).pcs u = (c.goto t pc).pcs u from rfl, goto_other c hut] at hu
      exact h.data u b d' hu
  · intro u b y hu
    rcases hwho u b y hu with ⟨-, rfl, rfl⟩ | ⟨hut, hu⟩
    · exact put_self _ _ _
    · have hne : b.part ≠ a.part := fun heq => hothers u hut b y hu (part_inj heq)
      rw [put_other _ hne]
      exact h.held u b y hu
  · intro u v b b' y y' hu hv hsame
    rcases hwho u b y hu with ⟨rfl, rfl, -⟩ | ⟨hut, hbefore⟩
    · rcases hwho v b' y' hv with ⟨rfl, -, -⟩ | ⟨hvt, hbefore'⟩
      · rfl
      · exact absurd hsame.symm (hothers v hvt b' y' hbefore')
    · rcases hwho v b' y' hv with ⟨rfl, rfl, -⟩ | ⟨hvt, hbefore'⟩
      · exact absurd hsame (hothers u hut b y hbefore)
      · exact h.alone u v b b' y y' hbefore hbefore' hsame

/-- The partial file becomes the cached one. -/
theorem Kept.replace (h : Kept host c) (hdigest : ∀ d, '-' ∉ host.sha256 d) {a : UrlAsset} {x : Bytes}
    (hpc : c.pcs t = .replace a x) :
    Kept host (((c.goto t .idle).put a.part none).put a.target (some x)) := by
  have hdata : (c.pcs t).data = some (a, x) := by rw [hpc]; rfl
  have hheld : (c.pcs t).held = some (a, x) := by rw [hpc]; rfl
  have hdash := h.no_dash hdigest hdata
  have hfree := h.goto_free (t := t) (show Resolving.idle.data = none from rfl)
  have hother : ∀ u b y, ((c.goto t .idle).pcs u).held = some (b, y) → (c.pcs u).held = some (b, y) ∧ u ≠ t := by
    intro u b y hu
    by_cases hut : u = t
    · subst hut
      rw [goto_self] at hu
      cases hu
    · rw [goto_other c hut] at hu
      exact ⟨hu, hut⟩
  refine ⟨?_, hfree.data, ?_, hfree.alone⟩
  · intro b d hb
    by_cases hsame : b.target = a.target
    · rw [hsame, put_self] at hb
      cases hb
      rw [h.data t a x hdata, (target_inj hsame).2]
    · have hne : b.target ≠ a.part := fun heq => part_ne_target hdash heq.symm
      rw [put_other _ hsame, put_other _ hne] at hb
      exact h.pinned b d hb
  · intro u b y hu
    obtain ⟨hu, hut⟩ := hother u b y hu
    obtain ⟨d, hb⟩ := data_of_held hu
    have hpart : b.part ≠ a.part := fun heq => hut (h.alone u t b a y x hu hheld (part_inj heq))
    have htarget : b.part ≠ a.target := part_ne_target (h.no_dash hdigest hb)
    rw [put_other _ htarget, put_other _ hpart]
    exact h.held u b y hu

theorem Kept.next (h : Kept host c) (hdigest : ∀ d, '-' ∉ host.sha256 d) {o : Outcome} (halone : Alone c (.step t o))
    (hstep : c.next host t o = some c') :
    Kept host c' ∧ ∀ x ∈ returned host c (.step t o), host.sha256 x.2 = x.1.sha256 := by
  have hnothing : ∀ {pc : Resolving}, c.pcs t = pc → (∀ a, pc ≠ .verify a) → (∀ a d, pc ≠ .replace a d) →
      ∀ x ∈ returned host c (.step t o), host.sha256 x.2 = x.1.sha256 := by
    intro pc hpc hverify hreplace x hx
    unfold returned at hx
    cases o with
    | done =>
      dsimp only at hx
      rw [hpc] at hx
      split at hx
      · exact absurd rfl (hverify _)
      · exact absurd rfl (hreplace _ _)
      · cases hx
    | _ => cases hx
  unfold Cache.next at hstep
  split at hstep
  · rename_i a infos hpc
    split at hstep
    · obtain rfl := Option.some.inj hstep
      exact ⟨h.goto_free rfl, hnothing hpc (by simp) (by simp)⟩
    · obtain rfl := Option.some.inj hstep
      exact ⟨h.goto_free rfl, hnothing hpc (by simp) (by simp)⟩
  · rename_i a hpc
    obtain rfl := Option.some.inj hstep
    refine ⟨h.goto_free ?_, hnothing hpc (by simp) (by simp)⟩
    split <;> rfl
  · rename_i a hpc
    obtain rfl := Option.some.inj hstep
    refine ⟨h.goto_free rfl, ?_⟩
    intro x hx
    rw [returned, hpc] at hx
    obtain ⟨d, hd, rfl⟩ := Option.map_eq_some_iff.1 hx
    obtain ⟨-, hpin⟩ := Option.filter_eq_some_iff.1 hd
    exact of_decide_eq_true hpin
  · rename_i a data hpc
    obtain rfl := Option.some.inj hstep
    refine ⟨?_, hnothing hpc (by simp) (by simp)⟩
    split
    · rename_i haccepted
      refine h.goto ?_ ?_
      · intro b d hb
        cases hb
        exact of_decide_eq_true (Bool.and_eq_true_iff.1 haccepted).2
      · intro b x hb
        cases hb
    · exact h.goto_free rfl
  · rename_i a data hpc
    obtain rfl := Option.some.inj hstep
    refine ⟨?_, hnothing hpc (by simp) (by simp)⟩
    have hd := h.data t a data (by rw [hpc]; rfl)
    refine h.write hdigest (d := data) rfl hd rfl ?_
    intro u _ b y hu hsame
    have hwrites := halone a (by rw [hpc]; rfl) u
    rw [Resolving.writes, hu] at hwrites
    simp [hsame] at hwrites
  · rename_i a front hpc
    obtain rfl := Option.some.inj hstep
    refine ⟨h.goto ?_ ?_, hnothing hpc (by simp) (by simp)⟩
    · intro b d hb
      cases hb
      exact h.data t a front (by rw [hpc]; simp [Resolving.data])
    · intro b x hb
      cases hb
      rw [hpc]
      rfl
  · rename_i a front rest n hpc
    obtain rfl := Option.some.inj hstep
    refine ⟨?_, hnothing hpc (by simp) (by simp)⟩
    have hheld := h.held t a front (by rw [hpc]; rfl)
    have hd := h.data t a (front ++ rest) (by rw [hpc]; rfl)
    rw [hheld, Option.map_some]
    refine h.write hdigest (d := front ++ rest.take n ++ rest.drop n) rfl ?_ rfl ?_
    · rw [List.append_assoc, List.take_append_drop]
      exact hd
    · intro u hut b y hu hsame
      exact hut (h.alone u t b a y front hu (by rw [hpc]; rfl) hsame)
  · rename_i a data hpc
    have hheld := h.held t a data (by rw [hpc]; rfl)
    rw [hheld] at hstep
    obtain rfl := Option.some.inj hstep
    refine ⟨h.replace hdigest hpc, ?_⟩
    intro x hx
    rw [returned, hpc] at hx
    dsimp only at hx
    rw [hheld] at hx
    cases hx
    exact h.data t a data (by rw [hpc]; rfl)
  · cases hstep
  · rename_i pc _ _
    obtain rfl := Option.some.inj hstep
    refine ⟨h.goto_free rfl, ?_⟩
    intro x hx
    cases hx
  · cases hstep

theorem Kept.act (h : Kept host c) (hdigest : ∀ d, '-' ∉ host.sha256 d) {w : Work τ} (halone : Alone c w)
    (hstep : c.act host w = some c') : Kept host c' ∧ ∀ x ∈ returned host c w, host.sha256 x.2 = x.1.sha256 := by
  cases w with
  | call t a =>
    rw [Cache.act] at hstep
    split at hstep
    · obtain rfl := Option.some.inj hstep
      exact ⟨h.goto_free rfl, by simp [returned]⟩
    · cases hstep
  | step t o => exact h.next hdigest halone hstep
  | dies t =>
    obtain rfl := Option.some.inj hstep
    exact ⟨h.goto_free rfl, by simp [returned]⟩

theorem Kept.run (h : Kept host c) (hdigest : ∀ d, '-' ∉ host.sha256 d) {acts : List (Work τ)}
    (halone : Along (Cache.act host) Alone c acts) (hrun : run (Cache.act host) c acts = some c') :
    Kept host c' ∧ ∀ x ∈ seen (Cache.act host) (returned host) c acts, host.sha256 x.2 = x.1.sha256 := by
  induction acts generalizing c with
  | nil =>
    obtain rfl := Option.some.inj hrun
    exact ⟨h, by simp [seen]⟩
  | cons w acts ih =>
    obtain ⟨m, hm, hrest⟩ := run_cons_eq_some.1 hrun
    obtain ⟨hkept, hnow⟩ := h.act hdigest halone.1 hm
    obtain ⟨hlast, hlater⟩ := ih hkept (halone.2 m hm) hrest
    refine ⟨hlast, ?_⟩
    intro x hx
    rw [seen_cons hm] at hx
    rcases List.mem_append.1 hx with hfirst | hmem
    · exact hnow x (Option.mem_toList.1 hfirst)
    · exact hlater x hmem

/-! ### A cached file -/

/-- The asset that a resolver has found missing. -/
def Resolving.missing : Resolving → Option UrlAsset
  | .fetch a | .create a _ | .write a _ _ | .replace a _ => some a
  | _ => none

/-- The file of the asset is in the cache, and no resolver is on its way to write it. -/
structure Warm (host : Host) (a : UrlAsset) (d : Bytes) (c : Cache τ) : Prop where
  cached : c.files a.target = some d
  elsewhere : ∀ t b, (c.pcs t).missing = some b → b.target ≠ a.target
  data : ∀ t b x, (c.pcs t).data = some (b, x) → host.sha256 x = b.sha256

variable {a : UrlAsset} {d : Bytes}

theorem Warm.goto (h : Warm host a d c) {pc : Resolving} (hmissing : ∀ b, pc.missing = some b → b.target ≠ a.target)
    (hdata : ∀ b x, pc.data = some (b, x) → host.sha256 x = b.sha256) : Warm host a d (c.goto t pc) := by
  refine ⟨h.cached, ?_, ?_⟩
  · intro u b hu
    by_cases hut : u = t
    · subst hut
      rw [goto_self] at hu
      exact hmissing b hu
    · rw [goto_other c hut] at hu
      exact h.elsewhere u b hu
  · intro u b x hu
    by_cases hut : u = t
    · subst hut
      rw [goto_self] at hu
      exact hdata b x hu
    · rw [goto_other c hut] at hu
      exact h.data u b x hu

omit [DecidableEq τ] in
theorem Warm.put (h : Warm host a d c) {file : Chars} (hne : a.target ≠ file) (x : Option Bytes) :
    Warm host a d (c.put file x) := by
  refine ⟨?_, h.elsewhere, h.data⟩
  rw [put_other c hne]
  exact h.cached

theorem Warm.next (h : Warm host a d c) (hdigest : ∀ d, '-' ∉ host.sha256 d) {o : Outcome}
    (hstep : c.next host t o = some c') : Warm host a d c' := by
  have hidle : ∀ {pc : Resolving}, pc.missing = none → pc.data = none → Warm host a d (c.goto t pc) := by
    intro pc hmissing hdata
    refine h.goto ?_ ?_
    · intro b hb
      rw [hmissing] at hb
      cases hb
    · intro b x hb
      rw [hdata] at hb
      cases hb
  unfold Cache.next at hstep
  split at hstep
  · split at hstep
    · obtain rfl := Option.some.inj hstep
      exact hidle rfl rfl
    · obtain rfl := Option.some.inj hstep
      exact hidle rfl rfl
  · rename_i b hpc
    obtain rfl := Option.some.inj hstep
    split
    · exact hidle rfl rfl
    · rename_i hnone
      refine h.goto ?_ ?_
      · intro b' hb hsame
        cases hb
        rw [hsame, h.cached] at hnone
        exact hnone rfl
      · intro b' x hb
        cases hb
  · obtain rfl := Option.some.inj hstep
    exact hidle rfl rfl
  · rename_i b data hpc
    obtain rfl := Option.some.inj hstep
    have hother := h.elsewhere t b (by rw [hpc]; rfl)
    split
    · rename_i haccepted
      refine h.goto ?_ ?_
      · intro b' hb
        cases hb
        exact hother
      · intro b' x hb
        cases hb
        exact of_decide_eq_true (Bool.and_eq_true_iff.1 haccepted).2
    · exact hidle rfl rfl
  · rename_i b data hpc
    obtain rfl := Option.some.inj hstep
    have hother := h.elsewhere t b (by rw [hpc]; rfl)
    have hpin := h.data t b data (by rw [hpc]; rfl)
    have hdash : '-' ∉ b.sha256 := hpin ▸ hdigest data
    refine (h.goto ?_ ?_).put (part_ne_target hdash).symm _
    · intro b' hb
      cases hb
      exact hother
    · intro b' x hb
      cases hb
      exact hpin
  · rename_i b front hpc
    obtain rfl := Option.some.inj hstep
    refine h.goto ?_ ?_
    · intro b' hb
      cases hb
      exact h.elsewhere t b (by rw [hpc]; rfl)
    · intro b' x hb
      cases hb
      exact h.data t b front (by rw [hpc]; simp [Resolving.data])
  · rename_i b front rest n hpc
    obtain rfl := Option.some.inj hstep
    have hpin := h.data t b (front ++ rest) (by rw [hpc]; rfl)
    have hdash : '-' ∉ b.sha256 := hpin ▸ hdigest (front ++ rest)
    refine (h.goto ?_ ?_).put (part_ne_target hdash).symm _
    · intro b' hb
      cases hb
      exact h.elsewhere t b (by rw [hpc]; rfl)
    · intro b' x hb
      cases hb
      rw [List.append_assoc, List.take_append_drop]
      exact hpin
  · rename_i b data hpc
    have hother := h.elsewhere t b (by rw [hpc]; rfl)
    have hpin := h.data t b data (by rw [hpc]; rfl)
    have hdash : '-' ∉ b.sha256 := hpin ▸ hdigest data
    split at hstep
    · obtain rfl := Option.some.inj hstep
      exact hidle rfl rfl
    · obtain rfl := Option.some.inj hstep
      exact ((hidle rfl rfl).put (part_ne_target hdash).symm _).put (Ne.symm hother) _
  · cases hstep
  · obtain rfl := Option.some.inj hstep
    exact hidle rfl rfl
  · cases hstep

theorem Warm.act (h : Warm host a d c) (hdigest : ∀ d, '-' ∉ host.sha256 d) {w : Work τ}
    (hstep : c.act host w = some c') : Warm host a d c' := by
  cases w with
  | call t b =>
    rw [Cache.act] at hstep
    split at hstep
    · obtain rfl := Option.some.inj hstep
      refine h.goto ?_ ?_
      · intro b' hb
        cases hb
      · intro b' x hb
        cases hb
    · cases hstep
  | step t o => exact h.next hdigest hstep
  | dies t =>
    obtain rfl := Option.some.inj hstep
    refine h.goto ?_ ?_
    · intro b' hb
      cases hb
    · intro b' x hb
      cases hb

omit [DecidableEq τ] in
private theorem Warm.fetched (h : Warm host a d c) {w : Work τ} {b : UrlAsset} (hb : Ops.fetched c w = some b) :
    b.target ≠ a.target := by
  unfold Ops.fetched at hb
  split at hb
  · rename_i t x
    split at hb
    · rename_i b' hpc
      cases hb
      exact h.elsewhere t b (by rw [hpc]; rfl)
    · cases hb
  · cases hb

omit [DecidableEq τ] in
theorem Warm.returned (h : Warm host a d c) {w : Work τ} {x : UrlAsset × Bytes} (hx : Ops.returned host c w = some x)
    (hsame : x.1.target = a.target) : x.2 = d := by
  unfold Ops.returned at hx
  split at hx
  · rename_i t
    split at hx
    · rename_i b hpc
      obtain ⟨y, hy, rfl⟩ := Option.map_eq_some_iff.1 hx
      obtain ⟨hfile, -⟩ := Option.filter_eq_some_iff.1 hy
      rw [show b.target = a.target from hsame, h.cached] at hfile
      exact (Option.some.inj hfile).symm
    · rename_i b data hpc
      obtain ⟨y, -, rfl⟩ := Option.map_eq_some_iff.1 hx
      exact absurd hsame (h.elsewhere t b (by rw [hpc]; rfl))
    · cases hx
  · cases hx

end

/-- Where no two resolvers write one file at a time, a cached file has the digits that its name says, in every state, and
what a resolver returns has the pinned hash; whatever fails, and whoever dies.  A file that is there, with no resolver
about to write it, stays, is not downloaded again, and is what its resolvers return. -/
theorem cache_is_pinned [DecidableEq τ] (host : Host) (hdigest : ∀ d, '-' ∉ host.sha256 d) {c c' : Cache τ}
    {acts : List (Work τ)} (hidle : ∀ t, c.pcs t = .idle)
    (hpinned : ∀ (a : UrlAsset) d, c.files a.target = some d → (host.sha256 d).take 16 = a.sha256.take 16)
    (halone : Along (Cache.act host) Alone c acts) (hrun : run (Cache.act host) c acts = some c') :
    (∀ (a : UrlAsset) d, c'.files a.target = some d → (host.sha256 d).take 16 = a.sha256.take 16) ∧
      (∀ x ∈ seen (Cache.act host) (returned host) c acts, host.sha256 x.2 = x.1.sha256) ∧
      ∀ (a : UrlAsset) d, c'.files a.target = some d → (∀ t b, (c'.pcs t).missing = some b → b.target ≠ a.target) →
        ∀ later c'', run (Cache.act host) c' later = some c'' →
        c''.files a.target = some d ∧
        (∀ b ∈ seen (Cache.act host) fetched c' later, b.target ≠ a.target) ∧
        ∀ x ∈ seen (Cache.act host) (returned host) c' later, x.1.target = a.target → x.2 = d := by
  have hkept : Kept host c := by
    refine ⟨hpinned, ?_, ?_, ?_⟩
    · intro t a d h
      rw [hidle t] at h
      cases h
    · intro t a x h
      rw [hidle t] at h
      cases h
    · intro t u a b x y h
      rw [hidle t] at h
      cases h
  obtain ⟨hlast, hreturned⟩ := hkept.run hdigest halone hrun
  refine ⟨hlast.pinned, hreturned, ?_⟩
  intro a d hcached helsewhere later c'' hlater
  have hwarm : Warm host a d c' := ⟨hcached, helsewhere, hlast.data⟩
  have hall : Along (Cache.act host) (fun _ _ => True) c' later := Along.of_forall fun _ _ => trivial
  refine ⟨?_, ?_, ?_⟩
  · exact (invariant (fun _ _ _ hstep h => Warm.act h hdigest hstep) hlater hwarm).cached
  · intro b hb
    exact hall.mem_seen (Q := fun b => b.target ≠ a.target) (fun _ _ _ _ hstep h => Warm.act h hdigest hstep)
      (fun _ _ _ h hb => h.fetched hb) hwarm hb
  · intro x hx
    exact hall.mem_seen (Q := fun x => x.1.target = a.target → x.2 = d)
      (fun _ _ _ _ hstep h => Warm.act h hdigest hstep) (fun _ _ _ h hx => h.returned hx) hwarm hx

/-- A host whose digests are all zeros or all ones. -/
def zerosAndOnes : Host where
  urlsplit := fun _ => ⟨"file".toList, [], "/fw.bin".toList, none⟩
  lower := id
  sha256 := fun data => List.replicate 64 (if data = [7, 7] then '0' else '1')

def image : UrlAsset := ⟨"fw".toList, "file:///fw.bin".toList, List.replicate 64 '0', rfl⟩

def emptyCache : Cache Bool := ⟨fun _ => none, fun _ => .idle⟩

/-- A resolver dies after the first of two bytes; the next one begins again and comes back. -/
def diesThenResolves : List (Work Bool) :=
  [.call true image, .step true (.resolved none), .step true .done, .step true (.body [7, 7]), .step true .done,
    .step true (.wrote 1), .dies true, .call false image, .step false (.resolved none), .step false .done,
    .step false (.body [7, 7]), .step false .done, .step false (.wrote 2), .step false .done, .step false .done]

def resolvesAgain : List (Work Bool) :=
  [.call true image, .step true (.resolved none), .step true .done, .step true .done]

theorem cache_is_pinned_image : ∃ c' c'' : Cache Bool,
    run (Cache.act zerosAndOnes) emptyCache diesThenResolves = some c' ∧
    run (Cache.act zerosAndOnes) c' resolvesAgain = some c'' ∧ c'.files image.target = some [7, 7] ∧
    ∀ x ∈ seen (Cache.act zerosAndOnes) (returned zerosAndOnes) emptyCache diesThenResolves,
      zerosAndOnes.sha256 x.2 = x.1.sha256 := by
  have hdigest : ∀ d, '-' ∉ zerosAndOnes.sha256 d := by
    intro d h
    have hzero := List.eq_of_mem_replicate h
    split at hzero <;> cases hzero
  refine ⟨_, _, rfl, rfl, rfl, ?_⟩
  have hrun : run (Cache.act zerosAndOnes) emptyCache diesThenResolves = some _ := rfl
  have halone : Along (Cache.act zerosAndOnes) Alone emptyCache diesThenResolves := by decide
  exact (cache_is_pinned zerosAndOnes hdigest (fun _ => rfl) (fun a d h => (by cases h)) halone hrun).2.1

end IronHarness.Ops
