import EdgeGateway.Launch.Basic

/-!
# The program

Reads the files that a start needs and reports what comes of it. The servers of a cluster are out of
reach of this program: a configuration that names one does not start.
-/

open EdgeGateway Launch

/-- What is found under a path; whatever cannot be read as a file counts as a directory. -/
def look (path : String) : IO (String × Blacklist.File) := do
  try
    return (path, .contents (← IO.FS.readBinFile path).toList)
  catch
    | .noFileOrDirectory .. => return (path, .missing)
    | _ => return (path, .directory)

/-- The surroundings with the files that were looked at. -/
def surroundings (files : List (String × Blacklist.File)) : Surroundings where
  file path := (files.lookup path).getD .missing
  connectNats _ := some "Connection refused (os error 111)"
  connectRedis := redisFailure

def main (args : List String) : IO UInt32 := do
  let first ← ((Options.parse args).toOption.bind Options.config).toList.mapM look
  let options := (Options.parse args).toOption.getD {}
  let paths := ((loadConfig (surroundings first) options.config).map configuredPaths).toOption
  let rest ← (paths.getD []).mapM look
  let r := run (surroundings (first ++ rest)) args
  IO.print r.out
  IO.eprint r.error
  return r.exit.toUInt32
