import VirePortal.Auth.Jwt
import VirePortal.Go.Browser
import VirePortal.Go.RoundTrip

/-!
# Portfolio pages

The dashboard pages name the portfolio that they show by the last part of their URL. Here are the
handlers of the desktop and the mobile page (`dashboard.go`, `mobile_dashboard.go`) as far as they
choose the portfolio, and the functions of the page's script that read and write the URL
(`common.js`).

A handler is given the session that `IsLoggedIn` found and what `/api/portfolios` returns for a
user, `none` for an error. The roles, the keys and the page data that a handler also fetches have no
part in the choice.
-/

namespace VirePortal.Pages

open Go Auth

/-- `strings.ToLower`, as far as its result is ASCII: the letters, and the two other code points
whose lower case is one (U+0130 to `i`, U+212A to `k`). -/
def lowerASCII : Str → Str
  | 0xC4 :: 0xB0 :: s => 105 :: lowerASCII s
  | 0xE2 :: 0x84 :: 0xAA :: s => 107 :: lowerASCII s
  | b :: s => toLower b :: lowerASCII s
  | [] => []

/-- `mobileKeywords`. -/
def mobileKeywords : List Str :=
  ["iphone", "android", "mobile", "ipod", "windows phone", "blackberry", "opera mini", "iemobile"]

/-- `isMobileBrowser`. -/
def isMobileBrowser (ua : Str) : Bool :=
  let ua := lowerASCII ua
  mobileKeywords.any (contains ua) && !contains ua "ipad"

/-- `pData`: the names of a user's portfolios, and the default. -/
structure PortfolioList where
  names : List Str
  defaultName : Str

/-- `urlPortfolio`, for the page at `base`. -/
def urlPortfolio (base path : Str) : Str :=
  match trimPrefix path base with
  | 47 :: c :: s => (unescape .pathSegment (c :: s)).getD []
  | _ => []

/-- The choice of the portfolio: that of the URL if the list has it, or else the default, or else
the first. -/
def selectPortfolio (urlPortfolio : Str) (p : PortfolioList) : Str :=
  let selected := if urlPortfolio ≠ [] ∧ urlPortfolio ∉ p.names then [] else urlPortfolio
  let selected := if selected = [] then p.defaultName else selected
  if selected = [] then p.names.headD [] else selected

/-- The answer to the request for a page: a redirect with its `Location`, or the page with the
portfolio that it selects. -/
inductive PageReply where
  | redirect (location : Str)
  | page (selected : Str)
  deriving DecidableEq

/-- The page of a user. -/
def pageFor (claims : JWTClaims) (portfolios : Str → Option PortfolioList) (urlPortfolio : Str) :
    PageReply :=
  if claims.sub ≠ [] then
    match portfolios claims.sub with
    | some p => .page (selectPortfolio urlPortfolio p)
    | none => .page []
  else .page []

/-- `mobilePath`. -/
def mobilePath (path : Str) : Str :=
  match trimPrefix path "/dashboard" with
  | 47 :: c :: s => "/m" ++ 47 :: c :: s
  | _ => "/m"

/-- `DashboardHandler.ServeHTTP`. -/
def serveDashboard (session : Option JWTClaims) (portfolios : Str → Option PortfolioList)
    (r : Request) :
    PageReply :=
  match session with
  | none => .redirect (redirectLocation "/")
  | some claims =>
    if isMobileBrowser (r.header.get "User-Agent") then
      .redirect (redirectLocation (mobilePath r.url.path))
    else pageFor claims portfolios (urlPortfolio "/dashboard" r.url.path)

/-- `MobileDashboardHandler.ServeHTTP`. -/
def serveMobile (session : Option JWTClaims) (portfolios : Str → Option PortfolioList)
    (r : Request) :
    PageReply :=
  match session with
  | none => .redirect (redirectLocation "/")
  | some claims => pageFor claims portfolios (urlPortfolio "/m" r.url.path)

/-- `decodeURIComponent`, `none` when it throws. -/
def decodeURIComponent (s : Str) : Option Str :=
  (unescape .path s).bind fun t => if validUTF8 t then some t else none

/-- `_getPortfolioFromURL`, from the path of the page, `none` when it throws. -/
def getPortfolioFromURL (path : Str) : Option Str :=
  if hasPrefix path "/dashboard/" then decodeURIComponent
    (path.drop (ascii "/dashboard/").length)
  else if hasPrefix path "/m/" then decodeURIComponent (path.drop (ascii "/m/").length)
  else some []

/-- `_updateURL`, from the path of the page and the selected portfolio to the path that the page has
then. -/
def updateURL (path selected : Str) : Str :=
  if selected ≠ [] then
    let base := if hasPrefix path "/m" then ascii "/m/" else ascii "/dashboard/"
    let newPath := base ++ encodeURIComponent selected
    if path ≠ newPath then pathname newPath else path
  else path

end VirePortal.Pages
