/-
# The files of completed deploys, in any interleaving

The lock of a model's name keeps the workers of one name apart, and nothing keeps the file
beside one target from being another name's target: a deploy of `m.gguf` takes away the
model `m.gguf.partial` (`partial_taken`). Where no accepted name is another one with
`.partial` after it, every deploy that is reported completed has its file from then on, and
the file holds all that a server sent for the name (`deployed_stays`).
-/
import LocaiLink.Runtime.Deliveries

namespace LocaiLink
namespace AgentRuntime

open Code Rt Machine

/-! ### The files -/

/-- **The invariant**: beside its target lies what a worker inside the lock wrote; what lies
at a name that is not beside another's target is whole; at an accepted name lies no
directory; and what a worker put in its place is there. -/
structure Stocked (s₀ s : Rt) (n : Notes Courier Ledger) : Prop where
  staged : ∀ g ∈ n.each, ∀ j cmd b, g.job = some (j, cmd) → g.inside = true → g.staged = some b →
    s.files (place s₀.cwd (cmd.modelName ++ ".partial")) = some (.file b)
  whole : ∀ name, Path.Single name → (∀ other ∈ n.all.names, name ≠ other ++ ".partial") →
    ∀ b, s.files (place s₀.cwd name) = some (.file b) → Whole s₀ n.all name b
  plain : ∀ name ∈ n.all.names, s.files (place s₀.cwd name) ≠ some .dir
  placed : ∀ g ∈ n.each, ∀ j cmd, g.job = some (j, cmd) → g.placed = true →
    (s.files (place s₀.cwd cmd.modelName)).isSome = true

theorem Whole.mono {s₀ : Rt} {l l' : Ledger} {name : String} {b : Bytes} (h : Whole s₀ l name b)
    (hl : l.fetched ⊆ l'.fetched) : Whole s₀ l' name b :=
  h.imp_right fun ⟨r, hr, hentire, hb⟩ => ⟨r, hl hr, hentire, hb⟩

section Stocked

variable {s₀ s s' : Rt} {held : Lock → Option (ℕ × ℕ)} {n : Notes Courier Ledger} {i : ℕ} {g g' : Courier} {l' : Ledger}
  {j : ℕ} {cmd : DeployModelCommand}

/-- Where the files that matter stay as they are. -/
theorem Stocked.still (h : Stocked s₀ s n) (hacc : Accepted s n) (hi : n.each[i]? = some g) (hjob : g'.job = g.job)
    (hframe : ∀ other, Path.Single other → s'.files (place s₀.cwd other) = s.files (place s₀.cwd other))
    (hstaged : ∀ b, g'.inside = true → g'.staged = some b → g.inside = true ∧ g.staged = some b)
    (hplaced : ∀ j cmd, g.job = some (j, cmd) → g'.placed = true →
      g.placed = true ∨ (s.files (place s₀.cwd cmd.modelName)).isSome = true)
    (hold : n.all.names ⊆ l'.names) (hfetched : n.all.fetched ⊆ l'.fetched)
    (hnames : ∀ name ∈ l'.names, name ∈ n.all.names ∨ (isSafeBasename name = true ∧ s.files (place s₀.cwd name) ≠ some .dir)) :
    Stocked s₀ s' ⟨n.each.set i g', l'⟩ := by
  have hg : g ∈ n.each := List.mem_of_getElem? hi
  have hsingle {x : Courier} (hx : x ∈ n.each) {j : ℕ} {cmd : DeployModelCommand} (hj : x.job = some (j, cmd)) :
      Path.Single cmd.modelName := single_of_safe (hacc.safe _ (hacc.job x hx j cmd hj))
  refine ⟨fun x hx j cmd b hj hin hb => ?_, fun name hname hother b hb => ?_, fun name hname => ?_, fun x hx j cmd hj hp => ?_⟩
  · rcases List.mem_or_eq_of_mem_set hx with hx | rfl
    · rw [hframe _ (single_stage (hsingle hx hj))]
      exact h.staged x hx j cmd b hj hin hb
    · have hj := hjob.symm.trans hj
      obtain ⟨hin, hb⟩ := hstaged b hin hb
      rw [hframe _ (single_stage (hsingle hg hj))]
      exact h.staged g hg j cmd b hj hin hb
  · rw [hframe name hname] at hb
    exact (h.whole name hname (fun other ho => hother other (hold ho)) b hb).mono hfetched
  · rcases hnames name hname with hname | ⟨hsafe, hplain⟩
    · rw [hframe name (single_of_safe (hacc.safe name hname))]
      exact h.plain name hname
    · rw [hframe name (single_of_safe hsafe)]
      exact hplain
  · rcases List.mem_or_eq_of_mem_set hx with hx | rfl
    · rw [hframe _ (hsingle hx hj)]
      exact h.placed x hx j cmd hj hp
    · have hj := hjob.symm.trans hj
      rw [hframe _ (hsingle hg hj)]
      rcases hplaced j cmd hj hp with hp | hthere
      · exact h.placed g hg j cmd hj hp
      · exact hthere

/-- Where a worker inside its lock changes the file beside its target, or puts what a server
sent at its target. -/
theorem Stocked.settle (h : Stocked s₀ s n) (hacc : Accepted s n) (hm : Minded s₀.cwd held n.each)
    (hi : n.each[i]? = some g) (hj : g.job = some (j, cmd)) (hin : g.inside = true) (hjob : g'.job = g.job)
    (hframe : ∀ other, Path.Single other → other ≠ cmd.modelName → other ≠ cmd.modelName ++ ".partial" →
      s'.files (place s₀.cwd other) = s.files (place s₀.cwd other))
    (hstaged : ∀ b, g'.staged = some b → s'.files (place s₀.cwd (cmd.modelName ++ ".partial")) = some (.file b))
    (htarget : s'.files (place s₀.cwd cmd.modelName) = s.files (place s₀.cwd cmd.modelName) ∨
      ∃ r, (cmd.modelName, r) ∈ l'.fetched ∧ Entire r ∧
        s'.files (place s₀.cwd cmd.modelName) = some (.file r.chunks.flatten))
    (hplaced : g'.placed = true → g.placed = true ∨ (s'.files (place s₀.cwd cmd.modelName)).isSome = true)
    (hnames : l'.names = n.all.names) (hfetched : n.all.fetched ⊆ l'.fetched) :
    Stocked s₀ s' ⟨n.each.set i g', l'⟩ := by
  have hg : g ∈ n.each := List.mem_of_getElem? hi
  have hmem := hacc.job g hg j cmd hj
  -- what was whole at the target, or there, still is
  have hthere {x : Courier} (hx : x ∈ n.each) {k : ℕ} {c : DeployModelCommand} (hk : x.job = some (k, c))
      (hp : x.placed = true) : (s'.files (place s₀.cwd c.modelName)).isSome = true := by
    have hold := h.placed x hx k c hk hp
    by_cases hsame : c.modelName = cmd.modelName
    · rw [hsame] at hold ⊢
      rcases htarget with heq | ⟨r, -, -, heq⟩
      · exact heq ▸ hold
      · rw [heq]
        rfl
    · have hc := hacc.job x hx k c hk
      rw [hframe _ (single_of_safe (hacc.safe _ hc)) hsame (hacc.apart _ hc _ hmem)]
      exact hold
  refine ⟨fun x hx k c b hk hxin hb => ?_, fun name hname hother b hb => ?_, fun name hname => ?_, fun x hx k c hk hp => ?_⟩
  · obtain ⟨m, hm'⟩ := List.mem_iff_getElem?.mp hx
    rcases getElem?_set_cases hm' with ⟨rfl, rfl⟩ | ⟨hne, hm'⟩
    · obtain ⟨rfl, rfl⟩ := Prod.mk.inj (Option.some.inj (hj.symm.trans (hjob.symm.trans hk)))
      exact hstaged b hb
    · have hx := List.mem_of_getElem? hm'
      have hc := hacc.job x hx k c hk
      -- of two workers of one name only one is inside
      have hname : c.modelName ≠ cmd.modelName := fun heq => by
        have hhold := hm.inside m x k c hm' hk hxin
        rw [heq] at hhold
        exact hne (hhold.unique (hm.inside i g j cmd hi hj hin))
      rw [hframe _ (single_stage (single_of_safe (hacc.safe _ hc))) (fun heq => hacc.apart _ hmem _ hc heq.symm)
        fun heq => hname (stage_injective heq)]
      exact h.staged x hx k c b hk hxin hb
  · have hother' : ∀ other ∈ n.all.names, name ≠ other ++ ".partial" := fun other ho => hother other (hnames ▸ ho)
    by_cases hsame : name = cmd.modelName
    · subst hsame
      rcases htarget with heq | ⟨r, hr, hentire, heq⟩
      · rw [heq] at hb
        exact (h.whole _ hname hother' b hb).mono hfetched
      · rw [heq, Option.some.injEq, Node.file.injEq] at hb
        exact .inr ⟨r, hr, hentire, hb.symm⟩
    · rw [hframe name hname hsame (hother' _ hmem)] at hb
      exact (h.whole name hname hother' b hb).mono hfetched
  · rw [hnames] at hname
    by_cases hsame : name = cmd.modelName
    · subst hsame
      rcases htarget with heq | ⟨r, -, -, heq⟩
      · rw [heq]
        exact h.plain _ hname
      · rw [heq]
        simp
    · rw [hframe name (single_of_safe (hacc.safe name hname)) hsame (hacc.apart _ hname _ hmem)]
      exact h.plain name hname
  · rcases List.mem_or_eq_of_mem_set hx with hx | rfl
    · exact hthere hx hk hp
    · have hk := hjob.symm.trans hk
      rcases hplaced hp with hp | hset
      · exact hthere hg hk hp
      · obtain ⟨rfl, rfl⟩ := Prod.mk.inj (Option.some.inj (hj.symm.trans hk))
        exact hset

/-- What a worker knows of its target, and of the file beside it. -/
theorem Minded.paths {wd : List String} {gs : List Courier} (h : Minded wd held gs) (hg : g ∈ gs) (hj : g.job = some (j, cmd))
    (hname : Path.Single cmd.modelName) :
    (∀ t, g.target = some t → t.resolve wd = place wd cmd.modelName) ∧
      ∀ p, g.Stages p → p.resolve wd = place wd (cmd.modelName ++ ".partial") := by
  have htarget {t : Path} (ht : g.target = some t) : t = (modelsDir wd).div cmd.modelName := by
    obtain ⟨d, hd, hjob⟩ := Option.bind_eq_some_iff.mp ht
    rw [hj, Option.map_some, Option.some.injEq] at hjob
    rw [← hjob, h.dir g hg d hd]
  refine ⟨fun t ht => ?_, fun p hp => ?_⟩
  · rw [htarget ht]
    rfl
  · obtain ⟨t, ht, hp⟩ := hp
    rw [htarget ht, Path.name_div hname, Path.withName_div hname (single_stage hname), Option.some.injEq] at hp
    rw [← hp]
    rfl

/-- A file operation raises and does nothing, or it does what it is for. -/
theorem fileOp_cases (fails : Option String) (f : Rt → Rt) (s : Rt) :
    (∃ e, s.fileOp fails f = (some e, s.tock)) ∨ (fails = none ∧ s.fileOp fails f = (none, f s.tock)) := by
  unfold fileOp
  split
  · exact .inl ⟨_, rfl⟩
  · rename_i hnone
    exact .inr ⟨(Option.or_eq_none_iff.mp hnone).1, rfl⟩

theorem files_setNode (s : Rt) (p : Path) (x : Option Node) (l : List String) :
    (s.setNode p x).files l = if l = p.resolve s.cwd then x else s.files l := Function.update_apply ..

/-- All of a reply that was announced truly is written. -/
theorem Courier.Fetched.entire (h : g.Fetched) (htrue : ∀ r, g.reply = some r → Truthful r) :
    ∃ r, g.reply = some r ∧ Entire r ∧ g.staged = some r.chunks.flatten := by
  obtain ⟨r, n, hr, herror, hlength, hstaged, hall⟩ := h
  obtain ⟨body, hbody, hprefix⟩ := htrue r hr
  obtain rfl : n = body.length := Except.ok.inj (hlength.symm.trans hbody)
  have hn : r.chunks.flatten.length = body.length := by
    by_cases hzero : body.length = 0
    · have hle := hprefix.length_le
      omega
    · exact hall hzero
  exact ⟨r, hr, ⟨herror, by rw [hlength, hn]⟩, hstaged⟩

/-- An action that touches no file. -/
theorem Stocked.fileless (h : Stocked s₀ s n) (hcwd : s.cwd = s₀.cwd) (hacc : Accepted s n) (hm : Minded s₀.cwd held n.each)
    (hi : n.each[i]? = some g) {a : Act} (hless : Fileless a) (ha : g.Permits a)
    (hapart : ∀ cmd hid, a = .register cmd hid → Apart s n.all cmd.modelName) :
    Stocked s₀ (perform a s).2 (n.deed Courier.note Ledger.mark i g (.act a (perform a s).1)) := by
  have hg : g ∈ n.each := List.mem_of_getElem? hi
  have hstaged : (Courier.noteAct a (perform a s).1 g).staged = g.staged ∨
      (Courier.noteAct a (perform a s).1 g).staged = none := by
    generalize (perform a s).1 = r
    unfold Courier.noteAct
    split <;> try exact .inl rfl
    · split_ifs <;> exact .inl rfl
    · exact .inr rfl
    · exact .inr rfl
    all_goals exact hless.elim
  have hplaced : (Courier.noteAct a (perform a s).1 g).placed = true →
      g.placed = true ∨ ∃ p, a = .lookup p ∧ g.target = some p ∧ (s.node p).isSome = true := fun hp => by
    by_cases hlook : ∃ p, a = .lookup p
    · obtain ⟨p, rfl⟩ := hlook
      change (Courier.noteAct (.lookup p) (s.node p) g).placed = true at hp
      cases hn : s.node p with
      | none =>
        rw [hn] at hp
        exact .inl hp
      | some x =>
        by_cases ht : g.target = some p
        · exact .inr ⟨p, rfl, ht, by rw [hn]; rfl⟩
        · have hnote : Courier.noteAct (.lookup p) (some x) g = g := if_neg ht
          rw [hn, hnote] at hp
          exact .inl hp
    · generalize (perform a s).1 = r at hp
      unfold Courier.noteAct at hp
      split at hp <;> try exact .inl hp
      · exact absurd ⟨_, rfl⟩ hlook
      · exact hless.elim
  refine h.still hacc hi (Courier.noteAct_job ..) (fun other _ => by rw [perform_files hless]) (fun b hin hb => ?_)
    (fun j cmd hj hp => ?_) ?_ (Ledger.mark_fetched ..) fun name hname => ?_
  · refine ⟨(Courier.noteAct_inside ..).symm.trans hin, ?_⟩
    rcases hstaged with heq | heq
    · exact heq.symm.trans hb
    · exact absurd (heq.symm.trans hb) (by simp)
  · rcases hplaced hp with hp | ⟨p, -, ht, hnode⟩
    · exact .inl hp
    · have hname := single_of_safe (hacc.safe _ (hacc.job g hg j cmd hj))
      rw [← (hm.paths hg hj hname).1 p ht, ← hcwd]
      exact .inr hnode
  · by_cases hreg : ∃ cmd hid, a = .register cmd hid
    · obtain ⟨cmd, hid, rfl⟩ := hreg
      exact List.subset_append_left ..
    · rw [Ledger.mark_names fun cmd hid heq => hreg ⟨cmd, hid, heq⟩]
      exact List.Subset.refl _
  · by_cases hreg : ∃ cmd hid, a = .register cmd hid
    · obtain ⟨cmd, hid, rfl⟩ := hreg
      rcases List.mem_append.mp hname with hold | hnew
      · exact .inl hold
      · have hthis := hapart cmd hid rfl
        rw [List.mem_singleton.mp hnew, ← hcwd]
        exact .inr ⟨ha hthis.nonempty, hthis.plain⟩
    · rw [Ledger.mark_names fun cmd hid heq => hreg ⟨cmd, hid, heq⟩] at hname
      exact .inl hname

/-- An operation that raises has done nothing. -/
theorem Stocked.raised (h : Stocked s₀ s n) (hacc : Accepted s n) (hi : n.each[i]? = some g) (hjob : g'.job = g.job)
    (hin : g'.inside = g.inside) (hstaged : ∀ b, g'.staged = some b → g.staged = some b) (hplaced : g'.placed = g.placed)
    {a : Act} (hreg : ∀ cmd hid, a ≠ .register cmd hid) : Stocked s₀ s.tock ⟨n.each.set i g', n.all.mark g a⟩ := by
  have hnames : (n.all.mark g a).names = n.all.names := Ledger.mark_names hreg ..
  refine h.still hacc hi hjob (fun _ _ => rfl) (fun b hb hs => ⟨hin.symm.trans hb, hstaged b hs⟩)
    (fun _ _ _ hp => .inl (hplaced.symm.trans hp)) ?_ (Ledger.mark_fetched ..) fun name hname => .inl ?_
  · rw [hnames]
    exact List.Subset.refl _
  · rwa [hnames] at hname

/-- A worker inside its lock sets what lies beside its target. -/
theorem Stocked.beside (h : Stocked s₀ s n) (hcwd : s.cwd = s₀.cwd) (hacc : Accepted s n) (hm : Minded s₀.cwd held n.each)
    (hi : n.each[i]? = some g) (hj : g.job = some (j, cmd)) (hin : g.inside = true) {p : Path} (hp : g.Stages p)
    {x : Option Node} (hjob : g'.job = g.job) (hstaged : ∀ b, g'.staged = some b → x = some (.file b))
    (hplaced : g'.placed = g.placed) : Stocked s₀ (s.tock.setNode p x) ⟨n.each.set i g', n.all⟩ := by
  have hg : g ∈ n.each := List.mem_of_getElem? hi
  have hname := single_of_safe (hacc.safe _ (hacc.job g hg j cmd hj))
  have hstage := single_stage hname
  have hfiles (l : List String) : (s.tock.setNode p x).files l =
      if l = place s₀.cwd (cmd.modelName ++ ".partial") then x else s.files l := by
    rw [files_setNode, ← (hm.paths hg hj hname).2 p hp, ← hcwd]
    rfl
  refine h.settle hacc hm hi hj hin hjob (fun other ho _ hne => ?_) (fun b hb => ?_) (.inl ?_)
    (fun hp => .inl (hplaced.symm.trans hp)) rfl (List.Subset.refl _)
  · rw [hfiles, if_neg fun heq => hne (place_injective ho hstage heq)]
  · rw [hfiles, if_pos rfl]
    exact hstaged b hb
  · rw [hfiles, if_neg fun heq => ne_stage _ (place_injective hname hstage heq)]

/-- What lies beside the target of a worker inside its lock is what it wrote. -/
theorem Stocked.node (h : Stocked s₀ s n) (hcwd : s.cwd = s₀.cwd) (hacc : Accepted s n) (hm : Minded s₀.cwd held n.each)
    (hi : n.each[i]? = some g) (hj : g.job = some (j, cmd)) (hin : g.inside = true) {p : Path} (hp : g.Stages p) {b : Bytes}
    (hb : g.staged = some b) : s.node p = some (.file b) := by
  have hg : g ∈ n.each := List.mem_of_getElem? hi
  have hname := single_of_safe (hacc.safe _ (hacc.job g hg j cmd hj))
  rw [← h.staged g hg j cmd b hj hin hb, ← (hm.paths hg hj hname).2 p hp, ← hcwd]
  rfl

/-- A chunk is added to what the worker wrote. -/
theorem Stocked.append (h : Stocked s₀ s n) (hcwd : s.cwd = s₀.cwd) (hacc : Accepted s n) (hm : Minded s₀.cwd held n.each)
    (hi : n.each[i]? = some g) (hj : g.job = some (j, cmd)) (hin : g.inside = true) {p : Path} (hp : g.Stages p) (chunk : Bytes) :
    Stocked s₀ (s.tock.appendTo p chunk) ⟨n.each.set i { g with staged := g.staged.map (· ++ chunk) }, n.all⟩ := by
  have hstaged {b : Bytes} (hb : g.staged.map (· ++ chunk) = some b) :
      ∃ w, s.tock.node p = some (.file w) ∧ b = w ++ chunk := by
    obtain ⟨w, hw, rfl⟩ := Option.map_eq_some_iff.mp hb
    exact ⟨w, h.node hcwd hacc hm hi hj hin hp hw, rfl⟩
  unfold appendTo
  split
  · rename_i w hw
    refine h.beside hcwd hacc hm hi hj hin hp rfl (fun b hb => ?_) rfl
    obtain ⟨w', hw', rfl⟩ := hstaged hb
    rw [hw, Option.some.injEq, Node.file.injEq] at hw'
    rw [hw']
  · rename_i hno
    refine h.still hacc hi rfl (fun _ _ => rfl) (fun b _ hb => ?_) (fun _ _ _ hp => .inl hp) (List.Subset.refl _)
      (List.Subset.refl _) fun name hname => .inl hname
    obtain ⟨w, hw, -⟩ := hstaged hb
    exact absurd hw (hno w)

/-- All that a server sent is put in its place. -/
theorem Stocked.replace (h : Stocked s₀ s n) (hcwd : s.cwd = s₀.cwd) (hacc : Accepted s n) (hm : Minded s₀.cwd held n.each)
    (hi : n.each[i]? = some g) (hj : g.job = some (j, cmd)) {p q : Path} (ha : g.Permits (.replace p q)) :
    Stocked s₀ ((s.tock.setNode p none).setNode q (s.node p))
      ⟨n.each.set i { g with placed := true, staged := none }, n.all.mark g (.replace p q)⟩ := by
  have hg : g ∈ n.each := List.mem_of_getElem? hi
  have hname := single_of_safe (hacc.safe _ (hacc.job g hg j cmd hj))
  obtain ⟨hattarget, hatstage⟩ := hm.paths hg hj hname
  obtain ⟨hin, hp, hq, hfetched⟩ := ha _ hj
  obtain ⟨r, hr, hentire, hb⟩ := hfetched.entire fun r hr => hm.reply g hg r hr
  have hfiles (l : List String) : ((s.tock.setNode p none).setNode q (s.node p)).files l =
      if l = place s₀.cwd cmd.modelName then some (.file r.chunks.flatten)
      else if l = place s₀.cwd (cmd.modelName ++ ".partial") then none else s.files l := by
    rw [files_setNode, files_setNode, h.node hcwd hacc hm hi hj hin hp hb, ← hattarget q hq, ← hatstage p hp, ← hcwd]
    rfl
  have hmark : (cmd.modelName, r) ∈ (n.all.mark g (.replace p q)).fetched := by
    simp only [Ledger.mark, hj, hr, List.mem_append, List.mem_singleton, or_true]
  refine h.settle hacc hm hi hj hin rfl (fun other ho hne hne' => ?_) (fun b hb => by cases hb) (.inr ⟨r, hmark, hentire, ?_⟩)
    (fun _ => .inr ?_) (Ledger.mark_names (fun _ _ heq => by cases heq) ..) (Ledger.mark_fetched ..)
  · rw [hfiles, if_neg fun heq => hne (place_injective ho hname heq),
      if_neg fun heq => hne' (place_injective ho (single_stage hname) heq)]
  · rw [hfiles, if_pos rfl]
  · rw [hfiles, if_pos rfl]
    rfl

/-- A worker's file operation. -/
theorem Stocked.file (h : Stocked s₀ s n) (hcwd : s.cwd = s₀.cwd) (hacc : Accepted s n) (hm : Minded s₀.cwd held n.each)
    (hi : n.each[i]? = some g) (hj : g.job = some (j, cmd)) {a : Act} (hfile : ¬Fileless a) (ha : g.Permits a) :
    Stocked s₀ (perform a s).2 (n.deed Courier.note Ledger.mark i g (.act a (perform a s).1)) := by
  have hg : g ∈ n.each := List.mem_of_getElem? hi
  cases a with
  | mkdir p =>
    obtain ⟨e, heq⟩ | ⟨-, heq⟩ := fileOp_cases (s.mkdirFails p) (setNode p (some .dir)) s
    · rw [show perform (.mkdir p) s = (some e, s.tock) from heq]
      exact h.raised hacc hi rfl rfl (fun _ hb => hb) rfl (a := .mkdir p) nofun
    · rw [show perform (.mkdir p) s = (none, s.tock.setNode p (some .dir)) from heq]
      have hplace : p.resolve s.tock.cwd = (modelsDir s₀.cwd).resolve s₀.cwd := by
        rw [hm.dir g hg p (ha _ hj), ← hcwd]
        rfl
      refine h.still hacc hi rfl (fun other ho => ?_) (fun b hin hb => ⟨hin, hb⟩) (fun _ _ _ hp => .inl hp)
        (List.Subset.refl _) (List.Subset.refl _) fun name hname => .inl hname
      rw [files_setNode, hplace, if_neg (place_ne_modelsDir ho _)]
      rfl
  | unlink p =>
    obtain ⟨hin, hp⟩ := ha _ hj
    obtain ⟨e, heq⟩ | ⟨-, heq⟩ := fileOp_cases ((s.isThere p).or (s.notDir p)) (setNode p none) s
    · rw [show perform (.unlink p) s = (some e, s.tock) from heq]
      refine h.raised (a := .unlink p) hacc hi ?_ ?_ ?_ ?_ nofun
      · rfl
      · rfl
      · nofun
      · rfl
    · rw [show perform (.unlink p) s = (none, s.tock.setNode p none) from heq]
      exact h.beside hcwd hacc hm hi hj hin hp rfl nofun rfl
  | create p =>
    obtain ⟨hin, hp⟩ := ha _ hj
    obtain ⟨e, heq⟩ | ⟨-, heq⟩ := fileOp_cases (s.notDir p) (setNode p (some (.file []))) s
    · rw [show perform (.create p) s = (some e, s.tock) from heq]
      exact h.raised hacc hi rfl rfl (fun _ hb => hb) rfl (a := .create p) nofun
    · rw [show perform (.create p) s = (none, s.tock.setNode p (some (.file []))) from heq]
      exact h.beside hcwd hacc hm hi hj hin hp rfl (fun b hb => by rw [Option.some.inj hb]) rfl
  | append p chunk =>
    obtain ⟨hin, hp⟩ := ha _ hj
    obtain ⟨e, heq⟩ | ⟨-, heq⟩ := fileOp_cases none (appendTo p chunk) s
    · rw [show perform (.append p chunk) s = (some e, s.tock) from heq]
      exact h.raised hacc hi rfl rfl (fun _ hb => hb) rfl (a := .append p chunk) nofun
    · rw [show perform (.append p chunk) s = (none, s.tock.appendTo p chunk) from heq]
      exact h.append hcwd hacc hm hi hj hin hp chunk
  | replace p q =>
    obtain ⟨e, heq⟩ | ⟨-, heq⟩ := fileOp_cases ((s.isThere p).or (s.notDir q))
      (fun t => (t.setNode p none).setNode q (s.node p)) s
    · rw [show perform (.replace p q) s = (some e, s.tock) from heq]
      exact h.raised hacc hi rfl rfl (fun _ hb => hb) rfl (a := .replace p q) nofun
    · rw [show perform (.replace p q) s = (none, (s.tock.setNode p none).setNode q (s.node p)) from heq]
      exact h.replace hcwd hacc hm hi hj ha
  | _ => exact absurd trivial hfile

end Stocked

/-! ### Every run -/

/-- **The invariant** of a run. -/
structure Delivering (s₀ s : Rt) (held : Lock → Option (ℕ × ℕ)) (n : Notes Courier Ledger) : Prop where
  cwd : s.cwd = s₀.cwd
  accepted : Accepted s n
  minded : Minded s₀.cwd held n.each
  stocked : Stocked s₀ s n

/-- Uninstalls apart, servers announce true lengths, and deploys are accepted for names that are
apart. -/
structure Separate (s : Rt) (n : Notes Courier Ledger) (g : Courier) (a : Act) : Prop where
  fair : Fair s g a
  apart : ∀ cmd hid, a = .register cmd hid → Apart s n.all cmd.modelName

section Delivering

variable {s₀ s : Rt} {held held' : Lock → Option (ℕ × ℕ)} {n : Notes Courier Ledger} {i : ℕ} {g : Courier}

theorem Delivering.act (h : Delivering s₀ s held n) (hi : n.each[i]? = some g) {a : Act} (ha : g.Permits a)
    (hC : Separate s n g a) :
    Delivering s₀ (perform a s).2 held (n.deed Courier.note Ledger.mark i g (.act a (perform a s).1)) := by
  have hcwd := h.cwd
  refine ⟨(perform_cwd a s).trans hcwd, h.accepted.act hi ha hC.apart, ?_, ?_⟩
  · rw [← hcwd]
    exact (hcwd ▸ h.minded).act hi ha hC.fair
  · by_cases hless : Fileless a
    · exact h.stocked.fileless hcwd h.accepted h.minded hi hless ha hC.apart
    · obtain ⟨⟨j, cmd⟩, hj⟩ := Option.ne_none_iff_exists'.mp fun hnone => hless (hC.fair.spared hnone)
      exact h.stocked.file hcwd h.accepted h.minded hi hj hless ha

/-- A lock changes no file, and what was written in the lock is forgotten when it is taken. -/
theorem Delivering.deed (h : Delivering s₀ s held n) (hi : n.each[i]? = some g) {g' : Courier}
    (hsame : g' = { g with inside := g'.inside, staged := g'.staged })
    (hstaged : g' = g ∨ g'.staged = none ∨ g'.inside = false) (hm : Minded s₀.cwd held' (n.each.set i g')) :
    Delivering s₀ s held' ⟨n.each.set i g', n.all⟩ := by
  have hmade : g'.made = g.made := by rw [hsame]
  have hjob : g'.job = g.job := by rw [hsame]
  have hplaced : g'.placed = g.placed := by rw [hsame]
  refine ⟨h.cwd, h.accepted.deed hi hmade hjob, hm, ?_⟩
  refine h.stocked.still h.accepted hi hjob (fun _ _ => rfl) (fun b hin hb => ?_) (fun _ _ _ hp => .inl (hplaced.symm.trans hp))
    (List.Subset.refl _) (List.Subset.refl _) fun name hname => .inl hname
  rcases hstaged with rfl | hnone | hout
  · exact ⟨hin, hb⟩
  · exact absurd (hnone.symm.trans hb) (by simp)
  · exact absurd (hout.symm.trans hin) (by simp)

theorem Delivering.lock {V : Validator} (h : Delivering s₀ s held n) (hi : n.each[i]? = some g) {l : Lock}
    (hl : (machine V).acquire held l i = some held') :
    Delivering s₀ s held' (n.deed Courier.note Ledger.mark i g (.lock l)) :=
  h.deed hi (Courier.note_lock ..) ((Courier.inside_lock g l).imp_right fun hnew => .inl hnew.1) (h.minded.lock hi hl)

theorem Delivering.unlock (h : Delivering s₀ s held n) (hi : n.each[i]? = some g) {l : Lock}
    (hl : release (σ := rtSig) held l i = some held') :
    Delivering s₀ s held' (n.deed Courier.note Ledger.mark i g (.unlock l)) := by
  refine h.deed hi (Courier.note_unlock ..) ?_ (h.minded.unlock hi hl)
  cases hin : (g.note (.unlock l)).inside with
  | true => exact .inl (Courier.inside_unlock hin).1
  | false => exact .inr (.inr rfl)

theorem Delivering.enter {V : Validator} {e : Entry} {p : Code Unit} {s' : Rt} (h : Delivering s₀ s held n)
    (he : enter V e s = some (p, s')) : Delivering s₀ s' held ⟨n.each ++ [Courier.born e s], n.all⟩ := by
  have hsame : s'.cwd = s.cwd ∧ s'.files = s.files := by
    cases e <;> simp only [AgentRuntime.enter, Option.ite_none_right_eq_some, Option.some.injEq, Prod.mk.injEq] at he <;>
      exact he.2.2 ▸ ⟨rfl, rfl⟩
  have hborn : (Courier.born e s).staged = none ∧ (Courier.born e s).placed = false := by cases e <;> exact ⟨rfl, rfl⟩
  obtain ⟨hstaged, hplaced⟩ := hborn
  refine ⟨hsame.1.trans h.cwd, h.accepted.enter he, h.minded.enter e s, ⟨fun x hx j cmd b hj hin hb => ?_,
    fun name hname hother b hb => ?_, fun name hname => ?_, fun x hx j cmd hj hp => ?_⟩⟩
  · rcases List.mem_append.mp hx with hx | hx
    · rw [hsame.2]
      exact h.stocked.staged x hx j cmd b hj hin hb
    · rw [List.mem_singleton.mp hx, hstaged] at hb
      cases hb
  · rw [hsame.2] at hb
    exact h.stocked.whole name hname hother b hb
  · rw [hsame.2]
    exact h.stocked.plain name hname
  · rcases List.mem_append.mp hx with hx | hx
    · rw [hsame.2]
      exact h.stocked.placed x hx j cmd hj hp
    · rw [List.mem_singleton.mp hx, hplaced] at hp
      cases hp

theorem Delivering.start {s : Rt} (hs : Unused s) : Delivering s s (fun _ => none) ⟨[{}], {}⟩ := by
  have hone {P : Courier → Prop} (h : P {}) : ∀ g ∈ (⟨[{}], {}⟩ : Notes Courier Ledger).each, P g := fun g hg =>
    List.mem_singleton.mp hg ▸ h
  refine ⟨rfl, ⟨hone nofun, fun j hj => ?_, hone nofun, nofun, nofun⟩, ⟨hone nofun, hone nofun, fun i g j cmd hi hj => ?_,
    hone nofun⟩, ⟨hone nofun, fun name _ _ b hb => .inl hb, nofun, hone nofun⟩⟩
  · exact absurd ((hs.jobs j).1.symm.trans hj) (by simp)
  · rw [List.mem_singleton.mp (List.mem_of_getElem? hi)] at hj
    cases hj

/-- What was reported completed is there, and it is whole. -/
theorem Delivering.delivered (h : Delivering s₀ s held n) : Delivered s₀ s n := by
  intro g hg j cmd hj hr
  have hmem := h.accepted.job g hg j cmd hj
  obtain ⟨node, hnode⟩ := Option.isSome_iff_exists.mp (h.stocked.placed g hg j cmd hj (h.minded.reported g hg j cmd hj hr))
  cases node with
  | dir => exact absurd hnode (h.stocked.plain _ hmem)
  | file b =>
    exact ⟨b, hnode, h.stocked.whole _ (single_of_safe (h.accepted.safe _ hmem)) (h.accepted.apart _ hmem) b hnode⟩

end Delivering

theorem Courier.free_new : ({} : Courier).Free := rfl

theorem carries_enter {V : Validator} {s s' : Rt} {e : Entry} {p : Code Unit} (he : enter V e s = some (p, s')) :
    Carries (fun _ _ => True) (Courier.born e s) p := by
  cases e with
  | command me data =>
    simp only [AgentRuntime.enter, Option.ite_none_right_eq_some, Option.some.injEq, Prod.mk.injEq] at he
    obtain ⟨-, rfl, rfl⟩ := he
    exact (carries_handleCommand V me data Courier.free_new).mono fun _ _ _ => trivial
  | worker j =>
    simp only [AgentRuntime.enter, Option.ite_none_right_eq_some, Option.some.injEq, Prod.mk.injEq] at he
    obtain ⟨-, rfl, rfl⟩ := he
    exact carries_deployWorker j _

/-- **Completed deploys keep their files.** In every run without uninstalls, where servers
announce true lengths and deploys are accepted for names that are apart, every deploy that
was reported completed has, from then on, its file, and the file is whole. -/
theorem deployed_stays (V : Validator) {s : Rt} (hs : Unused s) {es : List (Ev Entry)} {c : Sys rtSig Rt}
    (h : (machine V).exec (start V s) es = some c)
    (hC : (machine V).MeetsNoted Courier.note Courier.born Ledger.mark Separate (start V s) ⟨[{}], {}⟩ es) :
    Delivered s c.shared (couriers V s es) := by
  have hstart : Bound Courier.note couriered (start V s) (⟨[{}], {}⟩ : Notes Courier Ledger).each :=
    .cons (((does_run V).couriered Courier.free_new).mono fun _ _ _ => trivial) .nil
  exact (exec_obeys (M := machine V) (I := fun t held n => Delivering s t held n) (fun hI hi ha hC => hI.act hi ha hC)
    (fun hI hi _ hl => hI.lock hi hl) (fun hI hi _ hl => hI.unlock hi hl) (fun hI he => ⟨carries_enter he, hI.enter he⟩)
    hstart (Delivering.start hs) hC h).2.delivered

/-! ### A name that lies beside another -/

/-- Whether an action touches no file. -/
def touchesNone : Act → Bool
  | .mkdir _ | .unlink _ | .create _ | .append _ _ | .replace _ _ => false
  | _ => true

theorem fileless_of_touchesNone {a : Act} (h : touchesNone a = true) : Fileless a := by
  cases a with
  | mkdir | unlink | create | append | replace => cases h
  | _ => trivial

/-- The reply brought what it announced. -/
def bringsAll : Except String Response → Bool
  | .ok ⟨_, .ok n, chunks, _⟩ => n = chunks.flatten.length
  | _ => false

theorem truthful_of_bringsAll {x : Except String Response} {r : Response} (h : bringsAll x = true) (hx : x = .ok r) :
    Truthful r := by
  obtain ⟨status, length, chunks, error⟩ := r
  subst hx
  cases length with
  | error e => cases h
  | ok n => exact ⟨chunks.flatten, congrArg Except.ok (of_decide_eq_true h), List.prefix_rfl⟩

def fairs (s : Rt) (g : Courier) : Act → Bool
  | .download _ => bringsAll (s.ask .download).response
  | a => g.job.isSome || touchesNone a

theorem fair_of_fairs {s : Rt} {g : Courier} {a : Act} (h : fairs s g a = true) : Fair s g a := by
  by_cases hget : ∃ url, a = .download url
  · obtain ⟨url, rfl⟩ := hget
    exact ⟨fun _ => trivial, fun _ r _ hr => truthful_of_bringsAll h hr⟩
  · have hfairs : (g.job.isSome || touchesNone a) = true := by
      rw [← h]
      unfold fairs
      split
      · exact absurd ⟨_, rfl⟩ hget
      · rfl
    refine ⟨fun hnone => ?_, fun url _ heq _ => absurd ⟨url, heq⟩ hget⟩
    rw [hnone, Option.isSome_none, Bool.false_or] at hfairs
    exact fileless_of_touchesNone hfairs

instance decidableApart (s : Rt) (l : Ledger) (name : String) : Decidable (Apart s l name) :=
  decidable_of_iff (name ≠ "" ∧ s.files (place s.cwd name) ≠ some .dir ∧ (∀ other ∈ l.names, name ≠ other ++ ".partial") ∧
    ∀ other ∈ l.names, other ≠ name ++ ".partial")
    ⟨fun h => ⟨h.1, h.2.1, h.2.2.1, h.2.2.2⟩, fun h => ⟨h.nonempty, h.plain, h.after, h.before⟩⟩

def separates (s : Rt) (n : Notes Courier Ledger) (g : Courier) : Act → Bool
  | .register cmd _ => Apart s n.all cmd.modelName
  | a => fairs s g a

theorem separate_of_separates {s : Rt} {n : Notes Courier Ledger} {g : Courier} {a : Act} (h : separates s n g a = true) :
    Separate s n g a := by
  by_cases hreg : ∃ cmd hid, a = .register cmd hid
  · obtain ⟨cmd, hid, rfl⟩ := hreg
    refine ⟨⟨fun _ => trivial, fun _ _ heq => by cases heq⟩, fun c _ heq => ?_⟩
    obtain rfl := Act.register.inj heq
    exact of_decide_eq_true h
  · have hfairs : fairs s g a = true := by
      rw [← h]
      unfold separates
      split
      · exact absurd ⟨_, _, rfl⟩ hreg
      · rfl
    exact ⟨fair_of_fairs hfairs, fun cmd hid heq => absurd ⟨cmd, hid, heq⟩ hreg⟩

/-- A device to which an artifact is sent as it is announced. -/
def truthfulDevice : Rt :=
  device [commandCenter] fun _ _ => { response := .ok ⟨none, .ok 3, [[1, 2, 3]], none⟩ }

theorem unused_truthfulDevice : Unused truthfulDevice := ⟨rfl, fun _ => ⟨rfl, rfl, rfl⟩⟩

def deployNamed (pid name : String) : Entry :=
  .command none (command "DEPLOY_MODEL"
    [("pipeline_id", .str pid), ("model_name", .str name), ("config", (modelConfig pid false).modelDump)])

/-- Thread `i` takes the deploy, and thread `i + 1` is its worker, job `j`, for some steps. -/
def deploysNamed (pid name : String) (i j steps : ℕ) : List (Ev Entry) :=
  .enter (deployNamed pid name) :: List.replicate 6 (.step i) ++ .enter (.worker j) :: List.replicate steps (.step (i + 1))

/-- `m.gguf.partial` is deployed, and then `m.gguf`. -/
def partialFirst : List (Ev Entry) := deploysNamed "a" "m.gguf.partial" 1 0 42 ++ deploysNamed "b" "m.gguf" 3 1 43

/-- What a thread has told of its deploy, and of which name. -/
def Courier.tells (g : Courier) : Bool × Option String := (g.reported, g.job.map (·.2.modelName))

theorem partialFirst_run : ((machine .strict).exec (start .strict truthfulDevice) partialFirst).map (fun c =>
    (c.shared.files (place ["locai"] "m.gguf.partial"), (couriers .strict truthfulDevice partialFirst).each.map Courier.tells)) =
      some (none, [(false, none), (false, none), (true, some "m.gguf.partial"), (false, none), (true, some "m.gguf")]) := by
  decide +kernel

theorem partialFirst_fair : (machine .strict).checksNoted Courier.note Courier.born Ledger.mark (fun s _ g a => fairs s g a)
    (start .strict truthfulDevice) ⟨[{}], {}⟩ partialFirst = true := by
  decide +kernel

/-- The worker of `m.gguf` takes away what the deploy of `m.gguf.partial`, which was reported
completed, had put in its place. -/
theorem partial_taken :
    ¬ ∀ (V : Validator) (s : Rt) (es : List (Ev Entry)) (c : Sys rtSig Rt), Unused s →
      (machine V).exec (start V s) es = some c →
        (machine V).MeetsNoted Courier.note Courier.born Ledger.mark (fun s _ g a => Fair s g a) (start V s) ⟨[{}], {}⟩ es →
          Delivered s c.shared (couriers V s es) := by
  intro h
  obtain ⟨c, hc, hend⟩ := Option.map_eq_some_iff.mp partialFirst_run
  obtain ⟨hgone, htold⟩ := Prod.mk.inj hend
  have hdelivered := h .strict truthfulDevice _ c unused_truthfulDevice hc
    (meetsNoted_of_checks (fun _ _ _ _ => fair_of_fairs) partialFirst_fair)
  have hmem : (true, some "m.gguf.partial") ∈ (couriers .strict truthfulDevice partialFirst).each.map Courier.tells := by
    rw [htold]
    decide
  obtain ⟨g, hg, hthis⟩ := List.mem_map.mp hmem
  obtain ⟨hreported, hname⟩ := Prod.mk.inj hthis
  obtain ⟨⟨j, cmd⟩, hj, hcmd⟩ := Option.map_eq_some_iff.mp hname
  obtain ⟨b, hb, -⟩ := hdelivered g hg j cmd hj hreported
  rw [show cmd.modelName = "m.gguf.partial" from hcmd, show truthfulDevice.cwd = ["locai"] from rfl, hgone] at hb
  cases hb

-- an empty name names the directory of the models, which is there when the worker looks
example : ((machine .strict).exec (start .strict truthfulDevice) (deploysNamed "a" "" 1 0 25)).map (fun c =>
    (c.shared.files (place ["locai"] ""), (couriers .strict truthfulDevice (deploysNamed "a" "" 1 0 25)).each.map Courier.tells)) =
      some (some .dir, [(false, none), (false, none), (true, some "")]) := by
  decide +kernel

theorem separate_run : ((machine .strict).exec (start .strict truthfulDevice) (deploysNamed "a" "m.gguf" 1 0 42)).map (fun _ =>
    (couriers .strict truthfulDevice (deploysNamed "a" "m.gguf" 1 0 42)).each.map Courier.tells) =
      some [(false, none), (false, none), (true, some "m.gguf")] := by
  decide +kernel

theorem separate_checks : (machine .strict).checksNoted Courier.note Courier.born Ledger.mark separates
    (start .strict truthfulDevice) ⟨[{}], {}⟩ (deploysNamed "a" "m.gguf" 1 0 42) = true := by
  decide +kernel

/-- A deploy alone keeps its file. -/
theorem deployed_stays_alone : ∃ c b, (machine .strict).exec (start .strict truthfulDevice) (deploysNamed "a" "m.gguf" 1 0 42) =
    some c ∧ c.shared.files (place ["locai"] "m.gguf") = some (.file b) := by
  obtain ⟨c, hc, htold⟩ := Option.map_eq_some_iff.mp separate_run
  have hdelivered := deployed_stays .strict unused_truthfulDevice hc
    (meetsNoted_of_checks (fun _ _ _ _ => separate_of_separates) separate_checks)
  have hmem : (true, some "m.gguf") ∈
      (couriers .strict truthfulDevice (deploysNamed "a" "m.gguf" 1 0 42)).each.map Courier.tells := by
    rw [htold]
    decide
  obtain ⟨g, hg, hthis⟩ := List.mem_map.mp hmem
  obtain ⟨hreported, hname⟩ := Prod.mk.inj hthis
  obtain ⟨⟨j, cmd⟩, hj, hcmd⟩ := Option.map_eq_some_iff.mp hname
  obtain ⟨b, hb, -⟩ := hdelivered g hg j cmd hj hreported
  rw [show cmd.modelName = "m.gguf" from hcmd] at hb
  exact ⟨c, b, hc, hb⟩

end AgentRuntime
end LocaiLink
