import VirePortal.Auth.Backend
import VirePortal.Auth.CompleteOnce
import VirePortal.Auth.ConsumeOnce
import VirePortal.Auth.Footprint
import VirePortal.Auth.Identity
import VirePortal.Auth.KeyFidelity
import VirePortal.Auth.OpenRedirect
import VirePortal.Auth.Provenance
import VirePortal.Auth.Registration
import VirePortal.Auth.Retirement
import VirePortal.Auth.RotateOnce
import VirePortal.Auth.Server
import VirePortal.Client.CloseDelivery
import VirePortal.Client.LogConservation
import VirePortal.Client.LogStore
import VirePortal.Collections.Fifo
import VirePortal.Collections.FirstWins
import VirePortal.Concurrent.Alone
import VirePortal.Concurrent.Dialogue
import VirePortal.Concurrent.Doings
import VirePortal.Concurrent.History
import VirePortal.Concurrent.Outline
import VirePortal.Concurrent.Turns
import VirePortal.Go.Encoding
import VirePortal.Go.Http
import VirePortal.Go.Paths
import VirePortal.Go.Placeholders
import VirePortal.Go.RequestUri
import VirePortal.Go.RoundTrip
import VirePortal.Go.Routing
import VirePortal.Go.Templates
import VirePortal.Mcp.Catalog
import VirePortal.Mcp.Freshness
import VirePortal.Mcp.Handler
import VirePortal.Mcp.Jwt
import VirePortal.Mcp.MintValidate
import VirePortal.Mcp.Registry
import VirePortal.Mcp.Validation
import VirePortal.Mcp.Validators
import VirePortal.Seed.Admin
import VirePortal.Seed.AdminSync
import VirePortal.Server.Cache
import VirePortal.Server.CacheFifo
import VirePortal.Server.CacheHistory
import VirePortal.Server.CacheIsolation
import VirePortal.Server.CacheOrder
import VirePortal.Server.Forwarding
import VirePortal.Server.IdentityHeaders
import VirePortal.Server.InternalPaths
import VirePortal.Server.Invalidation
import VirePortal.Server.Proxy
import VirePortal.Server.ReadYourWrites
import VirePortal.Server.Sequential
import VirePortal.Server.Transparency
import VirePortal.Mcp.Proxy
import VirePortal.Mcp.Gate
import VirePortal.Go.Segments
import VirePortal.Mcp.ToolPath
import VirePortal.Go.Browser
import VirePortal.Go.Redirects
import VirePortal.Pages.Portfolio
import VirePortal.Pages.PortfolioUrl
import VirePortal.VireMcp.Delivery
import VirePortal.Pages.Dashboard
import VirePortal.Pages.DashboardShown
import VirePortal.Collections.Repair
import VirePortal.Pages.Anomalies
import VirePortal.Pages.Breadth
import VirePortal.Pages.Cash
import VirePortal.Pages.DefaultPortfolio
import VirePortal.Server.Version
import VirePortal.Mcp.DevHandler
import VirePortal.Mcp.ParamValues
import VirePortal.Auth.CompleteAtomic
import VirePortal.Auth.Cleanup
import VirePortal.Go.Forms
import VirePortal.Server.Middleware
import VirePortal.Concurrent.Join
import VirePortal.Pages.Hydration
import VirePortal.Concurrent.Results
import VirePortal.Auth.Redemption
import VirePortal.Auth.Completion
import VirePortal.Mcp.Flow
import VirePortal.Go.ServeMux
import VirePortal.Server.Routes
import VirePortal.Go.Dispatch
import VirePortal.Server.Discovery
import VirePortal.Server.StaticFiles
