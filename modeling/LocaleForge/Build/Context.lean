import LocaleForge.Build.Storage

/-!
What a build is given: its settings and the collaborators it calls.
-/

namespace LocaleForge

/-- The module bundler: a request in, the text of a bundle out. -/
structure Bundler where
  /-- How often each call waits, so that others may start before it ends. -/
  suspensions : Nat
  reply : Request → Disk → Except Failure String × Disk

/-- Loads a bundle and tells the names of the locales registered by it. -/
structure Probe where
  registered : Path → Disk → Except Failure (List String) × Disk

/-- Settings and collaborators of a build. -/
structure Context where
  settings : Settings
  storage : Storage
  bundler : Bundler
  probe : Probe

namespace Context

def read (ctx : Context) (p : Path) : Build String := do
  Build.note (.read p)
  Build.query (ctx.storage.read p)

def write (ctx : Context) (p : Path) (text : String) : Build Unit := do
  Build.note (.write p)
  Build.alter (ctx.storage.write p text)

def copy (ctx : Context) (source target : Path) : Build Unit := do
  Build.note (.copy source target)
  Build.alter (ctx.storage.copy source target)

def hasEntry (ctx : Context) (p : Path) : Build Bool := do
  return ctx.storage.hasEntry p (← get).disk

def expand (ctx : Context) (root : Path) (pattern : String) : Build (List String) := do
  Build.note (.expand root pattern)
  Build.query (ctx.storage.expand root pattern)

def remove (ctx : Context) (p : Path) : Build Bool := do
  Build.note (.remove p)
  Build.alter (ctx.storage.remove p)

/-- The names that a bundle registers. -/
def registered (ctx : Context) (bundle : Path) : Build (List String) := do
  Build.note (.probe bundle)
  Build.alter (ctx.probe.registered bundle)

/-- Removes a directory tree and says so if there was one. -/
def delete (ctx : Context) (p : Path) : Build Bool := do
  let removed ← ctx.remove p
  if removed then Build.tell (.detail ("deleted " ++ ctx.settings.shown p))
  return removed

end Context

end LocaleForge
