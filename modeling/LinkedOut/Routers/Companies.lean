/-
  `app/routers/companies.py` and `app/routers/health.py`: the cached aggregations of a
  company.

  A handler gives its answer and the cache it leaves; only a computed answer is put
  into the cache.
-/
import LinkedOut.Stats
import LinkedOut.Routers.Reviews

namespace LinkedOut

/-- What the two endpoints share: the company exists, a live entry answers, and otherwise
    the answer is computed and cached. `mono` is read by the lookup and by the store. -/
def cachedByCompany {α : Type} (p : Platform) (env : Env)
    (compute : Except HttpException α) (companyId : Uuid) (db : Db) (cache : TTLCache Uuid α) :
    Except HttpException α × TTLCache Uuid α :=
  match requireCompany companyId db with
  | .error e => (.error e, cache)
  | .ok () =>
    match cache.get (env.mono 0) companyId with
    | (some cached, cache') => (.ok cached, cache')
    | (none, cache') =>
      match compute with
      | .error e => (.error e, cache')
      | .ok result =>
        (.ok result,
          cache'.set (seconds p.settings.statsCacheTtlSeconds) (env.mono 1) companyId result)

/-- All statements of one request on a quiet database read the same state. -/
def getCompanyStats (p : Platform) (env : Env) (companyId : Uuid) (db : Db)
    (cache : TTLCache Uuid CompanyStats) :
    Except HttpException CompanyStats × TTLCache Uuid CompanyStats :=
  cachedByCompany p env (computeCompanyStats p (fun _ => db) companyId) companyId db cache

def getLayoffTimeline (p : Platform) (env : Env) (companyId : Uuid) (db : Db)
    (cache : TTLCache Uuid LayoffTimeline) :
    Except HttpException LayoffTimeline × TTLCache Uuid LayoffTimeline :=
  cachedByCompany p env (.ok (computeLayoffTimeline (env.place 0) db companyId)) companyId db cache

structure Health where
  status : String
  database : String
  deriving DecidableEq, Repr

/-- `SELECT 1` succeeds: the requests modelled here reach the database. -/
def health : Health := ⟨"ok", "ok"⟩

end LinkedOut
